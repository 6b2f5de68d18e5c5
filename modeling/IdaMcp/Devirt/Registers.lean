import IdaMcp.Devirt.Trace
import Mathlib.Data.List.Basic

/-!
# The registers of devirtualized code

The moves emitted for a call, run in order on the registers that the call
before left, against the registers that were recorded at the call.
-/

namespace Devirt
open Lib
variable {rn src : Reg} {op : Op}

/-- What the line for an immediate loads. -/
def immValue (v : UInt64) : UInt64 :=
  if v ≥ 0xFFFFFFFF80000000 then v.toUInt32.toUInt64
  else if v ≤ 0xFFFFFFFF then v.toUInt32.toUInt64
  else v

def Op.move (rn : Reg) (op : Op) : Move Reg UInt64 where
  dst:=rn
  source:=match op with
    | .ret => .read .rax id
    | .reg src => .read src id
    | .iat info => .value info.hook
    | .leaRsp off => .read .rsp (·+off)
    | .leaData addr => .value addr
    | .imm v => .value (immValue v)

theorem immValue_eq_iff (v : UInt64) : immValue v=v ↔ v<0xFFFFFFFF80000000 := by
  have hlow : v.toUInt32.toUInt64.toNat=v.toNat%2^32 := by
    rw [UInt32.toNat_toUInt64,UInt64.toNat_toUInt32]
  rw [immValue,← UInt64.toNat_inj,UInt64.lt_iff_toNat_lt]
  by_cases h1 : v ≥ 0xFFFFFFFF80000000
  · have hle : 0xFFFFFFFF80000000 ≤ v.toNat := UInt64.le_iff_toNat_le.mp h1
    rw [if_pos h1,hlow]
    change v.toNat%2^32=v.toNat ↔ v.toNat<0xFFFFFFFF80000000
    omega
  · have hlt : v.toNat<0xFFFFFFFF80000000 := by
      apply Nat.lt_of_not_le
      exact fun hle => h1 (UInt64.le_iff_toNat_le.mpr hle)
    rw [if_neg h1]
    by_cases h2 : v ≤ 0xFFFFFFFF
    · have hle : v.toNat ≤ 0xFFFFFFFF := UInt64.le_iff_toNat_le.mp h2
      rw [if_pos h2,hlow]
      change v.toNat%2^32=v.toNat ↔ v.toNat<0xFFFFFFFF80000000
      omega
    · rw [if_neg h2]
      exact ⟨fun _ => hlt,fun _ => rfl⟩

theorem exec_op (rn : Reg) (op : Op) (m : Machine) :
    ((op.insn rn).exec m).regs=(op.move rn).run m.regs := by
  cases op with
  | imm v =>
    simp only [Op.insn,Op.move,immValue,Move.run,Source.eval]
    by_cases h1 : v ≥ 0xFFFFFFFF80000000
    · rw [if_pos h1,if_pos h1]
      rfl
    · by_cases h2 : v ≤ 0xFFFFFFFF
      · rw [if_neg h1,if_neg h1,if_pos h2,if_pos h2]
        rfl
      · rw [if_neg h1,if_neg h1,if_neg h2,if_neg h2]
        rfl
  | _ => rfl

theorem execAll_ops (ops : List (Reg × Op)) (m : Machine) :
    (Insn.execAll (ops.map fun p => p.2.insn p.1) m).regs=
      Move.runAll (ops.map fun p => p.2.move p.1) m.regs := by
  induction ops generalizing m with
  | nil => rfl
  | cons p ops ih =>
    rw [List.map_cons,List.map_cons,Move.runAll_cons,← exec_op p.1 p.2 m]
    exact ih _

theorem exec_store (w : FrameWrite) (m : Machine) : (w.insn.exec m).regs=m.regs := by
  cases w with
  | sq o v =>
    rw [FrameWrite.insn]
    split <;> rfl
  | sd o v => rfl

theorem execAll_stores (ws : List FrameWrite) (m : Machine) :
    (Insn.execAll (ws.map FrameWrite.insn) m).regs=m.regs := by
  induction ws generalizing m with
  | nil => rfl
  | cons w ws ih => exact (ih _).trans (exec_store w m)

theorem execAll_append (is js : List Insn) (m : Machine) :
    Insn.execAll (is++js) m=Insn.execAll js (Insn.execAll is m) := List.foldl_append

theorem mem_GP_REGS (r : Reg) : r ∈ GP_REGS := by
  cases r <;> decide

namespace VMDevirtualizer
variable (d : VMDevirtualizer)

section
variable (prev cur : RegFile) (lastEv : Bool)

/-- The op is a reading of the recorded value. -/
def Explains (rn : Reg) : Op → Prop
  | .ret => prev .rax=cur rn
  | .reg src => src≠.rsp ∧ prev src=cur rn
  | .iat info => d.hookMap.get (cur rn)=some info
  | .leaRsp off => off=cur rn-d.frameRsp
  | .leaData addr => addr=cur rn
  | .imm v => v=cur rn

variable {prev cur lastEv}

theorem findRegSrc_spec {val : UInt64} (h : findRegSrc rn val prev=some src) :
    src≠.rsp ∧ prev src=val := by
  rw [findRegSrc] at h
  split at h
  · cases h
  · have hp:=List.find?_some h
    simp only [ne_eq,decide_not,Bool.and_eq_true,Bool.not_eq_eq_eq_not,Bool.not_true,
      decide_eq_false_iff_not,beq_iff_eq] at hp
    exact ⟨hp.1.2,hp.2⟩

theorem classify_explains (h : d.classify prev cur lastEv rn=some op) :
    rn≠.rsp ∧ cur rn≠prev rn ∧ Sentinel.isClobber (cur rn)=false ∧ d.Explains prev cur rn op := by
  simp only [classify] at h
  split at h
  · cases h
  · rename_i hrsp
    split at h
    · cases h
    · rename_i hne
      split at h
      · cases h
      · rename_i hclob
        refine ⟨hrsp,hne,Bool.eq_false_iff.mpr hclob,?_⟩
        split at h
        · rename_i hret
          cases h
          exact hret.2.symm
        · split at h
          · rename_i src hsrc
            cases h
            exact findRegSrc_spec hsrc
          · split at h
            · rename_i info hinfo
              cases h
              exact hinfo
            · split at h
              · cases h
                exact rfl
              · split at h
                · cases h
                  exact rfl
                · cases h
                  exact rfl

theorem classify_none (h : d.classify prev cur lastEv rn=none) (hrsp : rn≠.rsp)
    (hclob : Sentinel.isClobber (cur rn)=false) : cur rn=prev rn := by
  by_contra hne
  simp only [classify,if_neg hrsp,if_neg hne,hclob] at h
  split at h
  · contradiction
  · split at h
    · cases h
    · split at h
      · cases h
      · split at h
        · cases h
        · split at h
          · cases h
          · split at h <;> cases h

theorem mem_classifyDelta :
    (rn,op) ∈ d.classifyDelta prev cur lastEv ↔ d.classify prev cur lastEv rn=some op := by
  rw [classifyDelta,List.mem_filterMap]
  constructor
  · rintro ⟨r,-,hr⟩
    obtain ⟨o,ho,he⟩:=Option.map_eq_some_iff.mp hr
    cases he
    exact ho
  · intro h
    exact ⟨rn,mem_GP_REGS rn,by rw [h]; rfl⟩

/-- The moves that the lines of an event stand for. -/
def movesOf (prev cur : RegFile) (lastEv : Bool) : List (Move Reg UInt64) :=
  (d.classifyDelta prev cur lastEv).map fun p => p.2.move p.1

theorem mem_movesOf {m : Move Reg UInt64} :
    m ∈ d.movesOf prev cur lastEv ↔
      ∃ rn op,d.classify prev cur lastEv rn=some op ∧ m=op.move rn := by
  rw [movesOf,List.mem_map]
  constructor
  · rintro ⟨⟨rn,op⟩,hp,rfl⟩
    exact ⟨rn,op,d.mem_classifyDelta.mp hp,rfl⟩
  · rintro ⟨rn,op,hop,rfl⟩
    exact ⟨(rn,op),d.mem_classifyDelta.mpr hop,rfl⟩

theorem GP_REGS_ordered : GP_REGS.Pairwise fun r s => r.index<s.index := by decide

theorem movesOf_ordered : Move.Ordered Reg.index (d.movesOf prev cur lastEv) := by
  rw [Move.Ordered,movesOf,List.pairwise_map,classifyDelta]
  refine List.Pairwise.filterMap _ ?_ GP_REGS_ordered
  intro r s hrs p hp q hq
  obtain ⟨o,-,rfl⟩:=Option.map_eq_some_iff.mp hp
  obtain ⟨u,-,rfl⟩:=Option.map_eq_some_iff.mp hq
  exact hrs

theorem movesOf_changed {m n : Move Reg UInt64} {f : UInt64 → UInt64}
    (hm : m ∈ d.movesOf prev cur lastEv) (hs : m.source=.read src f)
    (hn : n ∈ d.movesOf prev cur lastEv) (hd : n.dst=src) : f (cur src)≠cur m.dst := by
  obtain ⟨rn,op,hop,rfl⟩:=d.mem_movesOf.mp hm
  obtain ⟨s,op',hop',rfl⟩:=d.mem_movesOf.mp hn
  change s=src at hd
  subst hd
  obtain ⟨-,-,-,hex⟩:=d.classify_explains hop
  obtain ⟨hsp,hne,-,-⟩:=d.classify_explains hop'
  cases op with
  | ret =>
    cases hs
    exact fun he => hne (he.trans hex.symm)
  | reg t =>
    cases hs
    exact fun he => hne (he.trans hex.2.symm)
  | leaRsp off =>
    cases hs
    exact absurd rfl hsp
  | iat info => cases hs
  | leaData addr => cases hs
  | imm v => cases hs

end

/-- The registers that the event before the `k`-th left. -/
def leftAt (k : Nat) : RegFile :=
  match k with
  | 0 => d.preVmRegs
  | k+1 => ((d.traps[k]?).map fun t => left k t.regs).getD d.preVmRegs

/-- The lines emitted for the `k`-th event give every register but `rsp` the
recorded value, unless that is a clobber marker. -/
def Reproduces (k : Nat) : Prop :=
  ∀ t e,d.traps[k]?=some t → d.emittedAt k=some e → ∀ mem r,r≠.rsp →
    Sentinel.isClobber (t.regs r)=false →
      (Insn.execAll (e.moves++e.stores) ⟨d.leftAt k,mem⟩).regs r=t.regs r

/-- `src` is the register that the line for `rn` copies. -/
def Copies (prev cur : RegFile) (lastEv : Bool) (rn src : Reg) : Prop :=
  d.classify prev cur lastEv rn=some (.reg src) ∨
    d.classify prev cur lastEv rn=some .ret ∧ src=.rax

/-- The lines are in an order in which they can be run: a register taken to
be unchanged is so, a copied register holds the value and is not written by an
earlier line, `rsp` is the base of the frame where it is used, and no
immediate needs its sign. -/
structure InOrder (prev file cur : RegFile) (lastEv : Bool) : Prop where
  kept : ∀ r,r≠.rsp → Sentinel.isClobber (cur r)=false → cur r=prev r → file r=cur r
  copies : ∀ rn src,d.Copies prev cur lastEv rn src → file src=cur rn ∧
    (d.classify prev cur lastEv src≠none → rn.index ≤ src.index)
  stack : ∀ rn off,d.classify prev cur lastEv rn=some (.leaRsp off) → file .rsp=d.frameRsp
  small : ∀ rn v,d.classify prev cur lastEv rn=some (.imm v) → v<0xFFFFFFFF80000000

section
variable {prev file cur : RegFile} {lastEv : Bool}

theorem written_iff {n : Nat} : (∀ m ∈ d.movesOf prev cur lastEv,m.dst=src → n ≤ src.index) ↔
      (d.classify prev cur lastEv src≠none → n ≤ src.index) := by
  constructor
  · intro h hne
    obtain ⟨op,hop⟩:=Option.ne_none_iff_exists'.mp hne
    exact h (op.move src) (d.mem_movesOf.mpr ⟨src,op,hop,rfl⟩) rfl
  · rintro h m hm rfl
    obtain ⟨rn,op,hop,rfl⟩:=d.mem_movesOf.mp hm
    apply h
    intro hnone
    exact absurd (hop.symm.trans hnone) (by simp)

theorem ready_iff (h : d.classify prev cur lastEv rn=some op) :
    Move.Ready Reg.index (d.movesOf prev cur lastEv) file cur (op.move rn) ↔
      (∀ src,d.Copies prev cur lastEv rn src → file src=cur rn ∧
        (d.classify prev cur lastEv src≠none → rn.index ≤ src.index)) ∧
      (∀ off,op=.leaRsp off → file .rsp=d.frameRsp) ∧
      (∀ v,op=.imm v → v<0xFFFFFFFF80000000) := by
  obtain ⟨-,-,-,hex⟩:=d.classify_explains h
  have hcopies : ∀ src,d.Copies prev cur lastEv rn src ↔ op=.reg src ∨ op=.ret ∧ src=.rax := by
    intro src
    rw [Copies,h,Option.some.injEq,Option.some.injEq]
  simp only [hcopies]
  cases op with
  | ret =>
    change (∀ m ∈ d.movesOf prev cur lastEv,m.dst=Reg.rax → rn.index ≤ Reg.rax.index) ∧
      file .rax=cur rn ↔ _
    rw [d.written_iff]
    simp [and_comm]
  | reg s =>
    change (∀ m ∈ d.movesOf prev cur lastEv,m.dst=s → rn.index ≤ s.index) ∧
      file s=cur rn ↔ _
    rw [d.written_iff]
    simp [and_comm]
  | iat info =>
    have hv : info.hook=cur rn := HookMap.hook_of_get hex
    change info.hook=cur rn ↔ _
    simpa using hv
  | leaData addr =>
    have hv : addr=cur rn := hex
    change addr=cur rn ↔ _
    simpa using hv
  | imm v =>
    have hv : v=cur rn := hex
    change immValue v=cur rn ↔ _
    rw [← hv,immValue_eq_iff]
    simp
  | leaRsp off =>
    have hoff : off=cur rn-d.frameRsp := hex
    have hfree : ∀ m ∈ d.movesOf prev cur lastEv,m.dst=Reg.rsp → rn.index ≤ Reg.rsp.index := by
      intro m hm hd
      obtain ⟨s,op',hop',rfl⟩:=d.mem_movesOf.mp hm
      exact absurd hd (d.classify_explains hop').1
    have hval : file .rsp+off=cur rn ↔ file .rsp=d.frameRsp := by
      rw [hoff]
      grind
    change (∀ m ∈ d.movesOf prev cur lastEv,m.dst=Reg.rsp → rn.index ≤ Reg.rsp.index) ∧
      file .rsp+off=cur rn ↔ _
    rw [hval,and_iff_right hfree]
    simp

theorem inOrder_iff : d.InOrder prev file cur lastEv ↔
    (∀ r,r≠.rsp → Sentinel.isClobber (cur r)=false → cur r=prev r → file r=cur r) ∧
      ∀ m ∈ d.movesOf prev cur lastEv,
        Move.Ready Reg.index (d.movesOf prev cur lastEv) file cur m := by
  constructor
  · intro h
    refine ⟨h.kept,?_⟩
    intro m hm
    obtain ⟨rn,op,hop,rfl⟩:=d.mem_movesOf.mp hm
    refine (d.ready_iff hop).mpr ⟨h.copies rn,?_,?_⟩
    · rintro off rfl
      exact h.stack rn off hop
    · rintro v rfl
      exact h.small rn v hop
  · rintro ⟨hkept,hready⟩
    have hone:=fun rn op hop => (d.ready_iff hop).mp
      (hready (op.move rn) (d.mem_movesOf.mpr ⟨rn,op,hop,rfl⟩))
    refine ⟨hkept,?_,?_,?_⟩
    · intro rn src hc
      rcases hc with hop | ⟨hop,hsrc⟩
      · exact (hone rn _ hop).1 src (.inl hop)
      · exact (hone rn _ hop).1 src (.inr ⟨hop,hsrc⟩)
    · exact fun rn off hop => (hone rn _ hop).2.1 off rfl
    · exact fun rn v hop => (hone rn _ hop).2.2 v rfl

theorem run_iff : (∀ r,r≠.rsp → Sentinel.isClobber (cur r)=false →
    Move.runAll (d.movesOf prev cur lastEv) file r=cur r) ↔ d.InOrder prev file cur lastEv := by
  rw [inOrder_iff,← (d.movesOf_ordered).run_iff
    fun m hm src f hs n hn hd => d.movesOf_changed hm hs hn hd]
  have hfree : ∀ r,d.classify prev cur lastEv r=none →
      Move.runAll (d.movesOf prev cur lastEv) file r=file r := by
    intro r hnone
    apply Move.runAll_of_ne
    rintro m hm rfl
    obtain ⟨rn,op,hop,rfl⟩:=d.mem_movesOf.mp hm
    exact absurd (hop.symm.trans hnone) (by simp)
  constructor
  · intro h
    constructor
    · intro r hr hc he
      have hnone : d.classify prev cur lastEv r=none := by
        cases hop : d.classify prev cur lastEv r with
        | none => rfl
        | some op => exact absurd he (d.classify_explains hop).2.1
      rw [← h r hr hc,hfree r hnone]
    · intro m hm
      obtain ⟨rn,op,hop,rfl⟩:=d.mem_movesOf.mp hm
      obtain ⟨hr,-,hc,-⟩:=d.classify_explains hop
      exact h rn hr hc
  · rintro ⟨hkept,hrun⟩ r hr hc
    cases hop : d.classify prev cur lastEv r with
    | none =>
      rw [hfree r hop]
      exact hkept r hr hc (d.classify_none hop hr hc)
    | some op => exact hrun (op.move r) (d.mem_movesOf.mpr ⟨r,op,hop,rfl⟩)

end

theorem emittedAt_some {k : Nat} {t : Trap} (ht : d.traps[k]?=some t)
    (hmark : isMarkerDll t.dll=false) :
    ∃ e,d.emittedAt k=some e ∧ ∀ file mem,
      (Insn.execAll (e.moves++e.stores) ⟨file,mem⟩).regs=
        Move.runAll (d.movesOf (d.pastAt k).prev t.regs (d.pastAt k).lastEv) file := by
  rw [emittedAt_eq,events_get,ht]
  simp only [Option.map_some,Option.bind_some,emit,record,hmark]
  refine ⟨_,rfl,?_⟩
  intro file mem
  rw [execAll_append,execAll_stores,execAll_ops]
  rfl

/-- The recorded registers are reproduced exactly when the lines are in an
order in which they can be run. -/
theorem reproduces_iff (k : Nat) : d.Reproduces k ↔
    ∀ t,d.traps[k]?=some t → isMarkerDll t.dll=false →
      d.InOrder (d.pastAt k).prev (d.leftAt k) t.regs (d.pastAt k).lastEv := by
  constructor
  · intro h t ht hmark
    obtain ⟨e,he,hrun⟩:=d.emittedAt_some ht hmark
    apply d.run_iff.mp
    intro r hr hc
    rw [← hrun (d.leftAt k) t.mem]
    exact h t e ht he t.mem r hr hc
  · intro h t e ht he mem r hr hc
    have hmark : isMarkerDll t.dll=false := by
      by_contra hm
      rw [emittedAt_eq,events_get,ht] at he
      simp only [Option.map_some,Option.bind_some,emit,record] at he
      rw [if_pos (by simpa using hm)] at he
      cases he
    obtain ⟨e',he',hrun⟩:=d.emittedAt_some ht hmark
    cases he.symm.trans he'
    rw [hrun (d.leftAt k) mem]
    exact d.run_iff.mpr (h t ht hmark) r hr hc

/-- One call that swaps `rbx` and `rbp`. -/
def swapped : VMDevirtualizer where
  hookMap:=[]
  sections:=[]
  frameSize:=0x30
  preVmRegs:=fun r => if r=.rbx then 5 else if r=.rbp then 7 else 0
  traps:=[⟨0x1000,true,['?'],[],fun r => if r=.rbx then 7 else if r=.rbp then 5 else 0,
    fun _ => 0⟩]
  vmExitAddr:=0

/-- Models `mov rbx, rbp` comes first, and `mov rbp, rbx` then copies 7 back. -/
theorem swapped_wrong : ¬swapped.Reproduces 0 := by
  intro h
  have hb:=h _ _ rfl rfl (fun _ => 0) .rbp (by decide) (by decide +kernel)
  exact absurd hb (by decide +kernel)

end VMDevirtualizer
end Devirt
