import IdaMcp.Lib.Bytes
import IdaMcp.Lib.Layout
import Mathlib.Data.List.Induction

/-!
# Bytes written into a buffer

Writes into a memory are run in order. Those that touch no other, or only their
equals, are found in the memory afterwards, whatever the order; what no write
touches is as it was before. A number is read back from its bytes, and a text
from its bytes and the zero behind them.
-/

namespace Lib
variable {mem : Nat → UInt8} {o hi lo n : Nat} {bs : List UInt8} {cs : List Char}

/-- The bytes `bs` stand at `o`. -/
def BytesAt (mem : Nat → UInt8) : Nat → List UInt8 → Prop
  | _,[] => True
  | o,b::bs => mem o=b ∧ BytesAt mem (o+1) bs

def BytesAt.decide (mem : Nat → UInt8) :
    (o : Nat) → (bs : List UInt8) → Decidable (BytesAt mem o bs)
  | _,[] => .isTrue trivial
  | o,b::bs => @instDecidableAnd _ _ (inferInstanceAs (Decidable (mem o=b)))
      (BytesAt.decide mem (o+1) bs)

instance (mem : Nat → UInt8) (o : Nat) (bs : List UInt8) : Decidable (BytesAt mem o bs) :=
  BytesAt.decide mem o bs

theorem bytesAt_iff : BytesAt mem o bs ↔ ∀ i b,bs[i]?=some b → mem (o+i)=b := by
  induction bs generalizing o with
  | nil => exact iff_of_true trivial fun i b h => by cases h
  | cons c bs ih =>
    rw [BytesAt,ih]
    constructor
    · rintro ⟨hc,ht⟩ i b hi
      cases i with
      | zero => exact hc.trans (Option.some.inj hi)
      | succ i => rw [Nat.add_comm i 1,← Nat.add_assoc]; exact ht i b hi
    · intro h
      refine ⟨h 0 c rfl,fun i b hi => ?_⟩
      rw [Nat.add_assoc,Nat.add_comm 1 i]
      exact h (i+1) b hi

theorem bytesAt_append {as : List UInt8} :
    BytesAt mem o (as++bs) ↔ BytesAt mem o as ∧ BytesAt mem (o+as.length) bs := by
  induction as generalizing o with
  | nil => exact (iff_of_eq (true_and _)).symm
  | cons a as ih =>
    rw [List.cons_append,BytesAt,BytesAt,ih,and_assoc,List.length_cons,Nat.add_assoc o 1,
      Nat.add_comm 1]

structure Write where
  start : Nat
  bytes : List UInt8

variable {w : Write} {ws : List Write}

namespace Write

def stop (w : Write) : Nat := w.start+w.bytes.length

def run (w : Write) (mem : Nat → UInt8) (a : Nat) : UInt8 :=
  if w.start ≤ a then (w.bytes[a-w.start]?).getD (mem a) else mem a

def Apart (w v : Write) : Prop := w.stop ≤ v.start ∨ v.stop ≤ w.start

theorem run_outside {a : Nat} (h : a<w.start ∨ w.stop ≤ a) (mem : Nat → UInt8) :
    w.run mem a=mem a := by
  rw [run]
  split
  · next hle =>
    rw [List.getElem?_eq_none (by rw [stop] at h; omega)]
    rfl
  · rfl

theorem bytesAt_run (w : Write) (mem : Nat → UInt8) : BytesAt (w.run mem) w.start w.bytes := by
  refine bytesAt_iff.mpr fun i b hi => ?_
  rw [run,if_pos (Nat.le_add_right _ _),Nat.add_sub_cancel_left,hi]
  rfl

theorem bytesAt_frame {v : Write} (h : w.Apart v)
    (hv : BytesAt mem v.start v.bytes) : BytesAt (w.run mem) v.start v.bytes := by
  refine bytesAt_iff.mpr fun i b hi => ?_
  obtain ⟨hl,-⟩:=List.getElem?_eq_some_iff.mp hi
  rw [run_outside (by rw [Apart,stop,stop] at h; rw [stop]; omega)]
  exact bytesAt_iff.mp hv i b hi

end Write

def writeAll (ws : List Write) (mem : Nat → UInt8) : Nat → UInt8 :=
  ws.foldl (fun m w => w.run m) mem

theorem bytesAt_writeAll (hw : w∈ws) (h : ∀ v∈ws,v=w ∨ v.Apart w)
    (mem : Nat → UInt8) : BytesAt (writeAll ws mem) w.start w.bytes := by
  -- by the last write: it is this one, or it leaves it alone
  induction ws using List.reverseRecOn with
  | nil => cases hw
  | append_singleton ws v ih =>
    rw [writeAll,List.foldl_append]
    rcases h v (List.mem_append_right _ List.mem_cons_self) with rfl | hv
    · exact v.bytesAt_run _
    rcases List.mem_append.mp hw with hw | hw
    · exact Write.bytesAt_frame hv (ih hw fun x hx => h x (List.mem_append_left _ hx))
    · rw [List.mem_singleton.mp hw]
      exact v.bytesAt_run _

/-- What a write leaves stays when all later ones are apart from it. -/
theorem bytesAt_writeAll_last {before after : List Write} (h : ∀ v∈after,v.Apart w)
    (mem : Nat → UInt8) : BytesAt (writeAll (before++w::after) mem) w.start w.bytes := by
  rw [writeAll,List.foldl_append,List.foldl_cons]
  have hw:=w.bytesAt_run (before.foldl (fun m w => w.run m) mem)
  generalize w.run _=m at hw
  induction after generalizing m with
  | nil => exact hw
  | cons v after ih =>
    exact ih (fun x hx => h x (List.mem_cons_of_mem v hx)) _
      (Write.bytesAt_frame (h v List.mem_cons_self) hw)

/-- Writes one behind another, from `lo` to `hi`. -/
def Ascends (hi : Nat) : Nat → List Write → Prop
  | lo,[] => lo ≤ hi
  | lo,w::ws => lo ≤ w.start ∧ Ascends hi w.stop ws

namespace Ascends

theorem le (h : Ascends hi lo ws) : lo ≤ hi := by
  induction ws generalizing lo with
  | nil => exact h
  | cons w ws ih => exact Nat.le_trans h.1 (Nat.le_trans (Nat.le_add_right _ _) (ih h.2))

theorem range (h : Ascends hi lo ws) (hw : w∈ws) : lo ≤ w.start ∧ w.stop ≤ hi := by
  induction ws generalizing lo with
  | nil => cases hw
  | cons v ws ih =>
    rcases List.mem_cons.mp hw with rfl | hw
    · exact ⟨h.1,h.2.le⟩
    · exact ⟨Nat.le_trans h.1 (Nat.le_trans (Nat.le_add_right _ _) (ih h.2 hw).1),(ih h.2 hw).2⟩

theorem append {mid : Nat} {vs : List Write} (h : Ascends mid lo ws)
    (h' : Ascends hi mid vs) : Ascends hi lo (ws++vs) := by
  induction ws generalizing lo with
  | nil =>
    cases vs with
    | nil => exact Nat.le_trans h h'
    | cons v vs => exact ⟨Nat.le_trans h h'.1,h'.2⟩
  | cons w ws ih => exact ⟨h.1,ih h.2⟩

theorem apart (h : Ascends hi lo ws) {v : Write} (hw : w∈ws) (hv : v∈ws) : v=w ∨ v.Apart w := by
  induction ws generalizing lo with
  | nil => cases hw
  | cons x ws ih =>
    rcases List.mem_cons.mp hw with rfl | hw' <;> rcases List.mem_cons.mp hv with rfl | hv'
    · exact .inl rfl
    · exact .inr (.inr (h.2.range hv').1)
    · exact .inr (.inl (h.2.range hw').1)
    · exact ih h.2 hw' hv'

theorem steps {step : Nat} {bytes : Nat → List UInt8} (hb : ∀ i,(bytes i).length ≤ step)
    (he : o+n*step ≤ hi) : Ascends hi o ((List.range n).map fun i => ⟨o+i*step,bytes i⟩) := by
  induction n generalizing hi with
  | zero => exact Nat.le_trans (Nat.le_add_right _ _) he
  | succ n ih =>
    rw [List.range_succ,List.map_append]
    refine (ih (Nat.le_refl _)).append ⟨Nat.le_refl _,?_⟩
    have hl:=hb n
    rw [Nat.succ_mul] at he
    change o+n*step+(bytes n).length ≤ hi
    omega

theorem tables {α : Type} (next : Nat → α → Nat) (ws : Nat → α → List Write)
    (h : ∀ o a,Ascends (next o a) o (ws o a)) (o : Nat) (as : List α) :
    Ascends (placeEnd next o as) o ((place next o as).flatMap fun x => ws x.1 x.2) := by
  induction as generalizing o with
  | nil => exact Nat.le_refl o
  | cons a as ih => exact (h o a).append (ih (next o a))

end Ascends

/-- The first `n` bytes of a buffer. -/
def firstBytes (n : Nat) (buf : Nat → UInt8) : List UInt8 := (List.range n).map buf

@[simp] theorem length_firstBytes (n : Nat) (buf : Nat → UInt8) : (firstBytes n buf).length=n := by
  rw [firstBytes,List.length_map,List.length_range]

/-- What stands in the first bytes of a buffer stands in every memory that has
these bytes. -/
theorem bytesAt_load {base : Nat} {buf : Nat → UInt8} (hmem : BytesAt mem base (firstBytes n buf))
    (h : BytesAt buf o bs) (hn : o+bs.length ≤ n) : BytesAt mem (base+o) bs := by
  refine bytesAt_iff.mpr fun i b hi => ?_
  obtain ⟨hl,-⟩:=List.getElem?_eq_some_iff.mp hi
  have hin : (firstBytes n buf)[o+i]?=some (buf (o+i)) := by
    rw [firstBytes,List.getElem?_map,List.getElem?_range (by omega)]
    rfl
  rw [Nat.add_assoc,bytesAt_iff.mp hmem _ _ hin]
  exact bytesAt_iff.mp h i b hi

section
variable {α : Type} (piece : α → List UInt8)

def pieceEnd (o : Nat) (a : α) : Nat := o+(piece a).length

theorem placeEnd_pieces (o : Nat) (as : List α) :
    placeEnd (pieceEnd piece) o as=o+(as.flatMap piece).length := by
  induction as generalizing o with
  | nil => rfl
  | cons a as ih =>
    change placeEnd (pieceEnd piece) (pieceEnd piece o a) as=_
    rw [ih,pieceEnd,List.flatMap_cons,List.length_append,Nat.add_assoc]

theorem bytesAt_piece {piece : α → List UInt8} {b p : Nat} {a : α} {as : List α}
    (h : BytesAt mem (b+o) (as.flatMap piece)) (ha : (p,a)∈place (pieceEnd piece) o as) :
    BytesAt mem (b+p) (piece a) ∧ p+(piece a).length ≤ o+(as.flatMap piece).length := by
  induction as generalizing o with
  | nil => cases ha
  | cons x as ih =>
    rw [List.flatMap_cons,bytesAt_append] at h
    rw [List.flatMap_cons,List.length_append]
    rcases List.mem_cons.mp ha with he | ha
    · cases he
      exact ⟨h.1,by omega⟩
    · have hr:=ih (o := pieceEnd piece o x) (by rw [pieceEnd,← Nat.add_assoc]; exact h.2) ha
      rw [pieceEnd] at hr
      exact ⟨hr.1,by omega⟩

end

/-- The `n` low bytes of a number, the lowest first. -/
def le : Nat → Nat → List UInt8
  | 0,_ => []
  | n+1,v => UInt8.ofNat v::le n (v/256)

@[simp] theorem length_le (n v : Nat) : (le n v).length=n := by
  induction n generalizing v with
  | zero => rfl
  | succ n ih => rw [le,List.length_cons,ih]

theorem word_of_bytesAt {v : Nat} (h : BytesAt mem o (le n v)) (hv : v<256^n) : word n mem o=v := by
  induction n generalizing v o with
  | zero => exact (Nat.lt_one_iff.mp hv).symm
  | succ n ih =>
    have hlow : (UInt8.ofNat v).toNat=v%256 := UInt8.toNat_ofNat'
    rw [word,h.1,hlow,ih h.2 (Nat.div_lt_of_lt_mul (by rw [← Nat.pow_succ']; exact hv))]
    exact Nat.mod_add_div v 256

def ascii (cs : List Char) : List UInt8 := cs.map fun c => UInt8.ofNat c.toNat

/-- Characters that `encode("ascii")` takes, and no zero. -/
def IsName (cs : List Char) : Prop := ∀ c∈cs,0<c.toNat ∧ c.toNat<128

theorem isName_of_all {l : List (List Char)}
    (h : (l.all fun cs => cs.all fun c => 0<c.toNat && c.toNat<128)=true) : ∀ cs∈l,IsName cs := by
  intro cs hcs c hc
  have hb:=List.all_eq_true.mp (List.all_eq_true.mp h cs hcs) c hc
  simpa using hb

theorem IsName.all (h : IsName cs) : (cs.all fun c => c.toNat<128)=true :=
  List.all_eq_true.mpr fun c hc => decide_eq_true (h c hc).2

theorem ascii_inj {ds : List Char} (hc : IsName cs) (hd : IsName ds) (h : ascii cs=ascii ds) :
    cs=ds := by
  induction cs generalizing ds with
  | nil =>
    cases ds with
    | nil => rfl
    | cons d ds => cases h
  | cons c cs ih =>
    cases ds with
    | nil => cases h
    | cons d ds =>
      obtain ⟨he,ht⟩:=List.cons.inj h
      have hn:=congrArg UInt8.toNat he
      rw [UInt8.toNat_ofNat',UInt8.toNat_ofNat',
        Nat.mod_eq_of_lt (Nat.lt_trans (hc c List.mem_cons_self).2 (by decide)),
        Nat.mod_eq_of_lt (Nat.lt_trans (hd d List.mem_cons_self).2 (by decide))] at hn
      rw [Char.toNat_inj.mp hn,ih (fun x hx => hc x (List.mem_cons_of_mem c hx))
        (fun x hx => hd x (List.mem_cons_of_mem d hx)) ht]

theorem zero_not_mem_ascii (h : IsName cs) : 0∉ascii cs := by
  intro hm
  obtain ⟨c,hc,he⟩:=List.mem_map.mp hm
  have ht:=congrArg UInt8.toNat he
  rw [UInt8.toNat_ofNat',Nat.mod_eq_of_lt (Nat.lt_trans (h c hc).2 (by decide))] at ht
  exact absurd ht (Nat.ne_of_gt (h c hc).1)

/-- A text and the zero that ends it. -/
def CString (mem : Nat → UInt8) (o : Nat) (s : List UInt8) : Prop := 0∉s ∧ BytesAt mem o (s++[0])

instance (mem : Nat → UInt8) (o : Nat) (s : List UInt8) : Decidable (CString mem o s) :=
  inferInstanceAs (Decidable (_ ∧ _))

theorem cstring_unique {s t : List UInt8} (hs : CString mem o s) (ht : CString mem o t) : s=t := by
  obtain ⟨hs0,hs⟩:=hs
  obtain ⟨ht0,ht⟩:=ht
  induction s generalizing o t with
  | nil =>
    cases t with
    | nil => rfl
    | cons c t => exact absurd (hs.1.symm.trans ht.1 ▸ List.mem_cons_self) ht0
  | cons b s ih =>
    cases t with
    | nil => exact absurd (ht.1.symm.trans hs.1 ▸ List.mem_cons_self) hs0
    | cons c t =>
      rw [show b=c from hs.1.symm.trans ht.1,ih (fun h => hs0 (List.mem_cons_of_mem b h)) hs.2
        (fun h => ht0 (List.mem_cons_of_mem c h)) ht.2]

end Lib
