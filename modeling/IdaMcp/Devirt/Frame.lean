import IdaMcp.Devirt.Trace
import Mathlib.Data.List.Basic

/-!
# The stack frame of devirtualized code

The stores emitted for a call, run on the frame of the call before, against
the frame that was recorded at the call.
-/

namespace Devirt
open Lib
variable {o i : Nat}

theorem lookup_map_d (l : List Nat) (f : Nat → Nat) (rest : Snap) (o : Nat) :
    (l.map (fun o => (FrameKey.d o,f o))++rest).lookup (.q o)=rest.lookup (.q o) := by
  induction l with
  | nil => rfl
  | cons x l ih => exact ih

theorem lookup_map_key {key : Nat → FrameKey} (hk : Function.Injective key) (l : List Nat)
    (f : Nat → Nat) (rest : Snap) (h : o ∈ l) :
    (l.map (fun o => (key o,f o))++rest).lookup (key o)=some (f o) := by
  induction l with
  | nil => cases h
  | cons x l ih =>
    rw [List.map_cons,List.cons_append,List.lookup_cons]
    by_cases hx : o=x
    · subst hx
      rw [beq_self_eq_true]
    · have hb : (key o==key x)=false := beq_eq_false_iff_ne.mpr fun he => hx (hk he)
      rw [hb]
      exact ih ((List.mem_cons.mp h).resolve_left hx)

/-- The end of the part of a frame that is compared. -/
def scanEnd (frameSize : Nat) : Nat := min (frameSize-8) 0x200

theorem frameSnap_q {frameSize : Nat} (mem : Nat → UInt8)
    (h : o ∈ offsets 0x20 (scanEnd frameSize) 8) :
    (frameSnap frameSize mem).lookup (.q o)=some (word 8 mem o) := by
  obtain ⟨hl,hu,hm⟩:=(mem_offsets (by decide)).mp h
  rw [frameSnap,lookup_map_d,← List.append_nil ((offsets 0 (min frameSize 0x200) 8).map _)]
  apply lookup_map_key fun _ _ => FrameKey.q.inj
  rw [scanEnd] at hu
  exact (mem_offsets (by decide)).mpr ⟨Nat.zero_le o,by omega,by omega⟩

theorem frameSnap_d {frameSize : Nat} (mem : Nat → UInt8)
    (h : o ∈ offsets 0x20 (scanEnd frameSize) 4) :
    (frameSnap frameSize mem).lookup (.d o)=some (word 4 mem o) := by
  obtain ⟨hl,hu,hm⟩:=(mem_offsets (by decide)).mp h
  rw [frameSnap]
  apply lookup_map_key fun _ _ => FrameKey.d.inj
  rw [scanEnd] at hu
  exact (mem_offsets (by decide)).mpr ⟨Nat.zero_le o,by omega,by omega⟩

section
variable (frameSize : Nat) (mem mem' : Nat → UInt8)

/-- The qwords that differ. -/
def changedQwords : List Nat :=
  (offsets 0x20 (scanEnd frameSize) 8).filter fun o => word 8 mem o≠word 8 mem' o

theorem changedAt_q (h : o ∈ offsets 0x20 (scanEnd frameSize) 8) :
    changedAt (frameSnap frameSize mem) (frameSnap frameSize mem') (.q o)=
      if word 8 mem o≠word 8 mem' o then some (word 8 mem' o) else none := by
  rw [changedAt,frameSnap_q mem' h,frameSnap_q mem h]
  simp [Option.filter]

theorem changedAt_d (h : o ∈ offsets 0x20 (scanEnd frameSize) 4) :
    changedAt (frameSnap frameSize mem) (frameSnap frameSize mem') (.d o)=
      if word 4 mem o≠word 4 mem' o then some (word 4 mem' o) else none := by
  rw [changedAt,frameSnap_d mem' h,frameSnap_d mem h]
  simp [Option.filter]

theorem dword_unchanged (h : o ∈ offsets 0x20 (scanEnd frameSize) 4)
    (hd : ∀ p ∈ changedQwords frameSize mem mem',o≠p ∧ o≠p+4) : word 4 mem o=word 4 mem' o := by
  obtain ⟨hl,hu,hm⟩:=(mem_offsets (by decide)).mp h
  have hq : o-o%8 ∈ offsets 0x20 (scanEnd frameSize) 8 :=
    (mem_offsets (by decide)).mpr ⟨by omega,by omega,by omega⟩
  have he : word 8 mem (o-o%8)=word 8 mem' (o-o%8) := by
    by_contra hne
    have hc : o-o%8 ∈ changedQwords frameSize mem mem' :=
      List.mem_filter.mpr ⟨hq,decide_eq_true hne⟩
    have hp:=hd _ hc
    omega
  rw [word_eq_iff] at he ⊢
  intro i hi
  have hb:=he (o%8+i) (by omega)
  rwa [show o-o%8+(o%8+i)=o+i by omega] at hb

theorem frameDelta_eq :
    frameDelta frameSize (frameSnap frameSize mem) (frameSnap frameSize mem')=
      (changedQwords frameSize mem mem').map fun o => .sq o (word 4 mem' o) := by
  have hscan : min (if frameSize>8 then frameSize-8 else 0) 0x200=scanEnd frameSize := by
    rw [scanEnd]
    split <;> omega
  have hq : (offsets 0x20 (scanEnd frameSize) 8).filter (fun o =>
      (changedAt (frameSnap frameSize mem) (frameSnap frameSize mem') (.q o)).isSome)=
        changedQwords frameSize mem mem' := by
    apply List.filter_congr
    intro o ho
    rw [changedAt_q frameSize mem mem' ho]
    by_cases h : word 8 mem o≠word 8 mem' o
    · rw [if_pos h,decide_eq_true h]; rfl
    · rw [if_neg h,decide_eq_false h]; rfl
  simp only [frameDelta,hscan,hq]
  rw [show ((offsets 0x20 (scanEnd frameSize) 4).filter fun o =>
      o ∉ (changedQwords frameSize mem mem').flatMap fun p => [p,p+4]).filterMap (fun o =>
        (changedAt (frameSnap frameSize mem) (frameSnap frameSize mem') (.d o)).map
          (FrameWrite.sd o))=[] from ?_,List.append_nil,changedQwords,← List.filterMap_eq_map',
    List.filterMap_filter]
  · apply List.filterMap_congr
    intro o ho
    rw [changedAt_q frameSize mem mem' ho]
    by_cases h : word 8 mem o≠word 8 mem' o
    · rw [if_pos h,if_pos (decide_eq_true h),Option.map_some,show (2:Nat)^32=256^4 by decide,
        word_mod 4 4 mem' o]
    · rw [if_neg h,if_neg (by simpa using h)]
      rfl
  · rw [List.filterMap_eq_nil_iff]
    intro o ho
    obtain ⟨ho,hd⟩:=List.mem_filter.mp ho
    have hne : word 4 mem o=word 4 mem' o := by
      apply dword_unchanged frameSize mem mem' ho
      intro p hp
      have hn:=of_decide_eq_true hd
      constructor
      · intro he
        exact hn (List.mem_flatMap.mpr ⟨p,hp,by simp [he]⟩)
      · intro he
        exact hn (List.mem_flatMap.mpr ⟨p,hp,by simp [he]⟩)
    rw [changedAt_d frameSize mem mem' ho,if_neg (not_not_intro hne)]
    rfl

/-- The bytes that the store for a changed qword writes. -/
def FrameWrite.moves (o v : Nat) : List (Move Nat UInt8) :=
  if v ≥ 0x80000000 then store 4 v o else store 8 v o

theorem exec_sq (o v : Nat) (m : Machine) :
    ((FrameWrite.sq o v).insn.exec m).mem=Move.runAll (FrameWrite.moves o v) m.mem := by
  rw [FrameWrite.insn,FrameWrite.moves]
  by_cases h : v ≥ 0x80000000
  · rw [if_pos h,if_pos h]
    rfl
  · have hs : signExtend v=v := if_pos (by omega)
    rw [if_neg h,if_neg h,Insn.exec,hs]

theorem execAll_sq (l : List Nat) (f : Nat → Nat) (m : Machine) :
    (Insn.execAll (l.map fun o => (FrameWrite.sq o (f o)).insn) m).mem=
      Move.runAll (l.flatMap fun o => FrameWrite.moves o (f o)) m.mem := by
  induction l generalizing m with
  | nil => rfl
  | cons o l ih =>
    rw [List.flatMap_cons,Move.runAll_append,← exec_sq o (f o) m]
    exact ih _

theorem mem_moves {v : Nat} {m : Move Nat UInt8} (h : m ∈ FrameWrite.moves o v) :
    o ≤ m.dst ∧ m.dst<o+8 := by
  rw [FrameWrite.moves] at h
  split at h
  all_goals
    obtain ⟨i,hi,rfl⟩:=mem_store.mp h
    exact ⟨Nat.le_add_right o i,by dsimp only; omega⟩

theorem moves_ordered (l : List Nat) (f : Nat → Nat) (h : l.Pairwise fun o p => o+8 ≤ p) :
    Move.Ordered id (l.flatMap fun o => FrameWrite.moves o (f o)) := by
  rw [Move.Ordered,List.pairwise_flatMap]
  constructor
  · intro o ho
    rw [FrameWrite.moves]
    split
    · exact store_ordered 4 (f o) o
    · exact store_ordered 8 (f o) o
  · refine h.imp ?_
    intro o p hop m hm n hn
    have h1:=mem_moves hm
    have h2:=mem_moves hn
    exact Nat.lt_of_lt_of_le h1.2 (Nat.le_trans hop h2.1)

theorem changedQwords_apart : (changedQwords frameSize mem mem').Pairwise fun o p => o+8 ≤ p :=
  (offsets_apart 0x20 (scanEnd frameSize) 8).filter _

/-- The memory after the stores. -/
def restored : Nat → UInt8 :=
  Move.runAll ((changedQwords frameSize mem mem').flatMap fun o =>
    FrameWrite.moves o (word 4 mem' o)) mem

theorem mem_changedQwords : o ∈ changedQwords frameSize mem mem' ↔
      o ∈ offsets 0x20 (scanEnd frameSize) 8 ∧ word 8 mem o≠word 8 mem' o := by
  rw [changedQwords,List.mem_filter,decide_eq_true_eq]

theorem restored_written {b : Nat} {v : UInt8} (ho : o ∈ changedQwords frameSize mem mem')
    (hm : ⟨b,.value v⟩ ∈ FrameWrite.moves o (word 4 mem' o)) : restored frameSize mem mem' b=v :=
  (moves_ordered _ _ (changedQwords_apart frameSize mem mem')).run_value mem
    (List.mem_flatMap.mpr ⟨o,ho,hm⟩)

theorem restored_kept {b : Nat} (hb : o ≤ b ∧ b<o+8) (h8 : o%8=0)
    (hn : o ∈ changedQwords frameSize mem mem' →
      ∀ m ∈ FrameWrite.moves o (word 4 mem' o),m.dst≠b) : restored frameSize mem mem' b=mem b := by
  apply Move.runAll_of_ne
  intro m hm he
  obtain ⟨p,hp,hm⟩:=List.mem_flatMap.mp hm
  have hr:=mem_moves hm
  obtain ⟨hl,-,hmod⟩:=(mem_offsets (by decide)).mp ((mem_changedQwords frameSize mem mem').mp hp).1
  rw [he] at hr
  have hpo : p=o := by omega
  subst hpo
  exact hn hp m hm he

theorem restored_low (ho : o ∈ changedQwords frameSize mem mem') (hi : i<4) :
    restored frameSize mem mem' (o+i)=mem' (o+i) := by
  apply restored_written frameSize mem mem' ho
  rw [FrameWrite.moves,← byte_word 4 mem' o i hi]
  split
  · exact mem_store.mpr ⟨i,hi,rfl⟩
  · exact mem_store.mpr ⟨i,by omega,rfl⟩

theorem restored_high (ho : o ∈ changedQwords frameSize mem mem') (h4 : 4 ≤ i)
    (h8 : i<8) : restored frameSize mem mem' (o+i)=
      if word 4 mem' o<2^31 then 0 else mem (o+i) := by
  by_cases hv : word 4 mem' o<2^31
  · rw [if_pos hv]
    apply restored_written frameSize mem mem' ho
    have hz : word 4 mem' o/256^i=0 := by
      apply Nat.div_eq_of_lt
      exact Nat.lt_of_lt_of_le (word_lt 4 mem' o) (Nat.pow_le_pow_right (by decide) h4)
    rw [FrameWrite.moves,if_neg (by omega)]
    refine mem_store.mpr ⟨i,h8,?_⟩
    rw [hz]
    rfl
  · rw [if_neg hv]
    obtain ⟨hl,-,hmod⟩:=(mem_offsets (by decide)).mp
      ((mem_changedQwords frameSize mem mem').mp ho).1
    refine restored_kept frameSize mem mem' (o := o) ⟨Nat.le_add_right o i,by omega⟩
      (by omega) ?_
    intro _ m hm he
    rw [FrameWrite.moves,if_pos (by omega)] at hm
    obtain ⟨j,hj,rfl⟩:=mem_store.mp hm
    dsimp only at he
    omega

theorem restored_unchanged (ho : o ∈ offsets 0x20 (scanEnd frameSize) 8) (hi : i<8)
    (he : word 8 mem o=word 8 mem' o) : restored frameSize mem mem' (o+i)=mem' (o+i) := by
  obtain ⟨hl,-,hmod⟩:=(mem_offsets (by decide)).mp ho
  rw [restored_kept frameSize mem mem' (o := o) ⟨Nat.le_add_right o i,by omega⟩ (by omega)]
  · exact (word_eq_iff 8 mem mem' o).mp he i hi
  · intro hc
    exact absurd he ((mem_changedQwords frameSize mem mem').mp hc).2

/-- The upper half of every changed qword is what its store makes of it:
zero when the lower half is a positive 32-bit number, and otherwise as
before. -/
def UpperHalves : Prop :=
  ∀ o ∈ offsets 0x20 (scanEnd frameSize) 8,word 8 mem o≠word 8 mem' o →
    ∀ i,4 ≤ i → i<8 → o+i<scanEnd frameSize →
      mem' (o+i)=if word 4 mem' o<2^31 then 0 else mem (o+i)

theorem restored_iff :
    (∀ b,0x20 ≤ b → b<scanEnd frameSize → restored frameSize mem mem' b=mem' b) ↔
      UpperHalves frameSize mem mem' := by
  constructor
  · intro h o ho hne i h4 h8 hlt
    have hc : o ∈ changedQwords frameSize mem mem' :=
      (mem_changedQwords frameSize mem mem').mpr ⟨ho,hne⟩
    obtain ⟨hl,-,-⟩:=(mem_offsets (by decide)).mp ho
    rw [← h (o+i) (by omega) hlt,restored_high frameSize mem mem' hc h4 h8]
  · intro h b hl hu
    have ho : b-b%8 ∈ offsets 0x20 (scanEnd frameSize) 8 :=
      (mem_offsets (by decide)).mpr ⟨by omega,by omega,by omega⟩
    have hsplit : b=b-b%8+b%8 := by omega
    have hi : b%8<8 := Nat.mod_lt b (by decide)
    by_cases he : word 8 mem (b-b%8)=word 8 mem' (b-b%8)
    · rw [hsplit]
      exact restored_unchanged frameSize mem mem' ho hi he
    · have hc:=(mem_changedQwords frameSize mem mem').mpr ⟨ho,he⟩
      rw [hsplit]
      by_cases h4 : b%8<4
      · exact restored_low frameSize mem mem' hc h4
      · rw [restored_high frameSize mem mem' hc (by omega) hi,
          h _ ho he _ (by omega) hi (by omega)]

end

namespace VMDevirtualizer
variable (d : VMDevirtualizer)

/-- The stores emitted for the call `k+1` turn the frame of the call `k` into
its own. -/
def Restores (k : Nat) : Prop :=
  ∀ t u e,d.traps[k]?=some t → d.traps[k+1]?=some u → d.emittedAt (k+1)=some e →
    ∀ regs b,0x20 ≤ b → b < min (d.frameSize-8) 0x200 →
      (Insn.execAll e.stores ⟨regs,t.mem⟩).mem b=u.mem b

theorem stores_at {k : Nat} {t u : Trap} {e : Emitted} (ht : d.traps[k]?=some t)
    (hu : d.traps[k+1]?=some u) (he : d.emittedAt (k+1)=some e) :
    e.stores=(changedQwords d.frameSize t.mem u.mem).map fun o =>
      (FrameWrite.sq o (word 4 u.mem o)).insn := by
  rw [emittedAt_eq,events_get,hu,pastAt,events_get,ht] at he
  simp only [Option.map_some,Option.getD_some,Option.bind_some,emit] at he
  split at he
  · cases he
  · cases he
    change (frameDelta d.frameSize (frameSnap d.frameSize t.mem)
      (frameSnap d.frameSize u.mem)).map FrameWrite.insn=_
    rw [frameDelta_eq,List.map_map]
    rfl

/-- The stores reproduce the frame exactly when every changed qword has the
upper half that its 32-bit immediate leaves. -/
theorem restores_iff (k : Nat) :
    d.Restores k ↔ ∀ t u,d.traps[k]?=some t → d.traps[k+1]?=some u →
      isMarkerDll u.dll=false → UpperHalves d.frameSize t.mem u.mem := by
  have hrun : ∀ t u e,d.traps[k]?=some t → d.traps[k+1]?=some u →
      d.emittedAt (k+1)=some e → ∀ regs,
        (Insn.execAll e.stores ⟨regs,t.mem⟩).mem=restored d.frameSize t.mem u.mem := by
    intro t u e ht hu he regs
    rw [d.stores_at ht hu he,execAll_sq]
    rfl
  constructor
  · intro h t u ht hu hmark
    have he : ∃ e,d.emittedAt (k+1)=some e := by
      rw [emittedAt_eq,events_get,hu]
      simp only [Option.map_some,Option.bind_some,emit,record,hmark]
      exact ⟨_,rfl⟩
    obtain ⟨e,he⟩:=he
    apply (restored_iff d.frameSize t.mem u.mem).mp
    intro b hl hb
    rw [← hrun t u e ht hu he t.regs]
    exact h t u e ht hu he t.regs b hl hb
  · intro h t u e ht hu he regs b hl hb
    rw [hrun t u e ht hu he regs]
    have hmark : isMarkerDll u.dll=false := by
      rw [emittedAt_eq,events_get,hu] at he
      by_contra hm
      simp only [Option.map_some,Option.bind_some,emit,record] at he
      rw [if_pos (by simpa using hm)] at he
      cases he
    exact (restored_iff d.frameSize t.mem u.mem).mpr (h t u ht hu hmark) b hl hb

/-- A trace of two calls between which one frame qword goes from 0 to 2^32. -/
def highDword : VMDevirtualizer where
  hookMap:=[]
  sections:=[]
  frameSize:=0x30
  preVmRegs:=fun _ => 0
  traps:=[⟨0x1000,true,['?'],[],fun _ => 0,fun _ => 0⟩,
    ⟨0x1000,true,['?'],[],fun _ => 0,fun b => if b=0x24 then 1 else 0⟩]
  vmExitAddr:=0

/-- The store writes the lower half alone, so that the byte 0x24 stays 0. -/
theorem highDword_lost : ¬highDword.Restores 0 := by
  intro h
  have hb:=h _ _ _ rfl rfl rfl (fun _ => 0) 0x24 (by decide) (by decide)
  exact absurd hb (by decide +kernel)

end VMDevirtualizer
end Devirt
