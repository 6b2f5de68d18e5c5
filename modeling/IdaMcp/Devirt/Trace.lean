import IdaMcp.Lib.Bytes

/-!
# From a call trace to straight-line code

`skill/scripts/vm_devirt.py` emulates a virtualized function and intercepts
its calls. The registers and the stack frame at each call are compared with
those after the call before, and the differences are written out as x86-64
instructions: moves into registers, stores into the frame, then the call.
-/

namespace Devirt
open Lib

inductive Reg where
  | rax | rbx | rcx | rdx | rsi | rdi | rbp | rsp
  | r8 | r9 | r10 | r11 | r12 | r13 | r14 | r15
  deriving DecidableEq,Repr

def GP_REGS : List Reg :=
  [.rax,.rbx,.rcx,.rdx,.rsi,.rdi,.rbp,.rsp,.r8,.r9,.r10,.r11,.r12,.r13,.r14,.r15]

def WIN64_VOLATILE : List Reg := [.rcx,.rdx,.r8,.r9,.r10,.r11]

def Reg.name : Reg → List Char
  | .rax => "rax".toList | .rbx => "rbx".toList | .rcx => "rcx".toList | .rdx => "rdx".toList
  | .rsi => "rsi".toList | .rdi => "rdi".toList | .rbp => "rbp".toList | .rsp => "rsp".toList
  | .r8 => "r8".toList | .r9 => "r9".toList | .r10 => "r10".toList | .r11 => "r11".toList
  | .r12 => "r12".toList | .r13 => "r13".toList | .r14 => "r14".toList | .r15 => "r15".toList

/-- The place of a register in `GP_REGS`. -/
def Reg.index (r : Reg) : Nat := GP_REGS.idxOf r

abbrev RegFile := Reg → UInt64

namespace Sentinel

def retVal (callIdx : Nat) : UInt64 := (0xCAFE000000000000 : UInt64) ||| UInt64.ofNat (callIdx%2^32)

def clobber (reg : Reg) (callIdx : Nat) : UInt64 :=
  let tag:=(reg.name.map Char.toNat).sum%2^16
  (0xDEAD000000000000 : UInt64) ||| (UInt64.ofNat tag <<< 16) ||| UInt64.ofNat (callIdx%2^16)

def isClobber (v : UInt64) : Bool := v>>>48==0xDEAD

end Sentinel

inductive FrameKey where
  | d (o : Nat)
  | q (o : Nat)
  deriving DecidableEq,Repr

abbrev Snap := List (FrameKey × Nat)

/-- The bytes above the return address, seen as dwords and as qwords. -/
def frameSnap (frameSize : Nat) (mem : Nat → UInt8) : Snap :=
  let scan:=min frameSize 0x200
  (offsets 0 scan 4).map (fun o => (.d o,word 4 mem o)) ++
    (offsets 0 scan 8).map (fun o => (.q o,word 8 mem o))

/-- What `_reconstruct` compares the first frame with. -/
def freshSnap (frameSize : Nat) : Snap :=
  let scan:=min frameSize 0x200
  (offsets 0 scan 4).map (fun o => (.d o,0xCCCCCCCC)) ++
    (offsets 0 scan 8).map (fun o => (.q o,0xCCCCCCCCCCCCCCCC))

inductive FrameWrite where
  | sq (o v : Nat)
  | sd (o v : Nat)
  deriving DecidableEq,Repr

/-- The value under `k` in the new snapshot, if it is there and not the old one. -/
def changedAt (pf cf : Snap) (k : FrameKey) : Option Nat :=
  (cf.lookup k).filter fun cv => pf.lookup k≠some cv

def frameDelta (frameSize : Nat) (pf cf : Snap) : List FrameWrite :=
  let cookieOff:=if frameSize>8 then frameSize-8 else 0
  let scan:=min cookieOff 0x200
  let qwords:=(offsets 0x20 scan 8).filter fun o => (changedAt pf cf (.q o)).isSome
  let done:=qwords.flatMap fun o => [o,o+4]
  (offsets 0x20 scan 8).filterMap (fun o =>
      (changedAt pf cf (.q o)).map fun cv => .sq o (cv%2^32)) ++
    ((offsets 0x20 scan 4).filter (· ∉ done)).filterMap fun o =>
      (changedAt pf cf (.d o)).map (.sd o)

structure HookInfo where
  dll : List Char
  func : List Char
  iat : Nat
  hook : UInt64
  sym : List Char
  deriving DecidableEq,Repr

/-- `hook_map`, whose key for an entry is the entry's own `hook`. -/
abbrev HookMap := List HookInfo

def HookMap.get (m : HookMap) (a : UInt64) : Option HookInfo := m.find? (·.hook==a)

theorem HookMap.hook_of_get {m : HookMap} {a : UInt64} {info : HookInfo} (h : m.get a=some info) :
    info.hook=a := by
  rw [HookMap.get] at h
  have hb:=List.find?_some h
  exact beq_iff_eq.mp hb

/-- What the emulator shows when a call is intercepted: where it goes, under
which names it is known in the end, the registers, and the bytes above the
return address. -/
structure Trap where
  addr : UInt64
  dark : Bool
  dll : List Char
  func : List Char
  regs : RegFile
  mem : Nat → UInt8

structure Event where
  i : Nat
  dll : List Char
  func : List Char
  hook : UInt64
  regs : RegFile
  ret : UInt64
  via : Option Reg
  frame : Snap

/-- `_on_call` and `_on_dark_call`. -/
def record (frameSize callIdx : Nat) (t : Trap) : Event where
  i:=callIdx
  dll:=t.dll
  func:=t.func
  hook:=t.addr
  regs:=t.regs
  ret:=Sentinel.retVal callIdx
  via:=if t.dark then none else GP_REGS.find? fun r => t.regs r==t.addr && r≠.rsp
  frame:=frameSnap frameSize t.mem

/-- The registers both leave behind. -/
def left (callIdx : Nat) (regs : RegFile) : RegFile := fun r =>
  if r=.rax then Sentinel.retVal callIdx
  else if r∈WIN64_VOLATILE then Sentinel.clobber r callIdx
  else if r=.rsp then regs .rsp+8
  else regs r

def KNOWN_MARKER_DLLS : List (List Char) :=
  ["virtualizersdk32.dll".toList,"virtualizersdk64.dll".toList,
   "thewidasdk32.dll".toList,"thewidasdk64.dll".toList,
   "codevirtualizer32.dll".toList,"codevirtualizer64.dll".toList]

/-- Models `str.lower`, as far as it gives ASCII letters: the Kelvin sign is the one
   other character whose lower case is one. -/
def lower (c : Char) : Char := if c=Char.ofNat 0x212A then 'k' else c.toLower

def isMarkerDll (dllName : List Char) : Bool := KNOWN_MARKER_DLLS.contains (dllName.map lower)

inductive Insn where
  | movReg (dst src : Reg)
  | movIat (dst : Reg) (info : HookInfo)
  | leaRsp (dst : Reg) (off : UInt64)
  | leaData (dst : Reg) (addr : UInt64)
  | mov32 (dst : Reg) (imm : UInt32)
  | mov64 (dst : Reg) (imm : UInt64)
  | storeDword (off imm : Nat)
  | storeQword (off imm : Nat)

inductive CallTarget where
  | via (r : Reg)
  | iat (sym : List Char)
  deriving DecidableEq,Repr

inductive Line where
  | insn (i : Insn)
  | call (target : CallTarget)
  | jmp (addr : Nat)

/-- The registers, and the memory above `rsp`. -/
structure Machine where
  regs : RegFile
  mem : Nat → UInt8

/-- A 32-bit immediate as a 64-bit operand. -/
def signExtend (imm : Nat) : Nat := if imm<2^31 then imm else imm+(2^64-2^32)

/-- A write to a 32-bit register clears the upper half, and a placeholder
stands for the address it was made for. -/
def Insn.exec (i : Insn) (m : Machine) : Machine :=
  match i with
  | .movReg dst src => {m with regs := Function.update m.regs dst (m.regs src)}
  | .movIat dst info => {m with regs := Function.update m.regs dst info.hook}
  | .leaRsp dst off => {m with regs := Function.update m.regs dst (m.regs .rsp+off)}
  | .leaData dst addr => {m with regs := Function.update m.regs dst addr}
  | .mov32 dst imm => {m with regs := Function.update m.regs dst imm.toUInt64}
  | .mov64 dst imm => {m with regs := Function.update m.regs dst imm}
  | .storeDword off imm => {m with mem := Move.runAll (store 4 imm off) m.mem}
  | .storeQword off imm => {m with mem := Move.runAll (store 8 (signExtend imm) off) m.mem}

def Insn.execAll (is : List Insn) (m : Machine) : Machine := is.foldl (fun m i => i.exec m) m

inductive Op where
  | ret
  | reg (src : Reg)
  | iat (info : HookInfo)
  | leaRsp (off : UInt64)
  | leaData (addr : UInt64)
  | imm (v : UInt64)
  deriving DecidableEq

/-- The state `_reconstruct` reads. Registers that were never recorded are
read as zero, and the frame starts at the recorded `rsp`. -/
structure VMDevirtualizer where
  hookMap : HookMap
  sections : List (String × Nat × Nat)
  frameSize : Nat
  preVmRegs : RegFile
  traps : List Trap
  vmExitAddr : Nat

namespace VMDevirtualizer
variable (d : VMDevirtualizer)

def events : List Event := d.traps.mapIdx (record d.frameSize)

def frameRsp : UInt64 := d.preVmRegs .rsp

def isDataAddr (a : UInt64) : Bool :=
  [".rdata",".data",".text"].any fun n =>
    match d.sections.lookup n with
    | some (va,fin) => va ≤ a.toNat && a.toNat<fin
    | none => false

def findRegSrc (dst : Reg) (val : UInt64) (prev : RegFile) : Option Reg :=
  if val=0 then none else GP_REGS.find? fun r => r≠dst && r≠.rsp && prev r==val

/-- The part of `_classify_delta` for one register. -/
def classify (prev cur : RegFile) (lastEv : Bool) (rn : Reg) : Option Op :=
  let old:=prev rn
  let new:=cur rn
  if rn=.rsp then none
  else if new=old then none
  else if Sentinel.isClobber new then none
  else if lastEv ∧ new=prev .rax then some .ret
  else match findRegSrc rn new prev with
    | some src => some (.reg src)
    | none => match d.hookMap.get new with
      | some info => some (.iat info)
      | none =>
        if d.frameRsp≠0 ∧ d.frameRsp ≤ new ∧ (new-d.frameRsp).toNat<d.frameSize then
          some (.leaRsp (new-d.frameRsp))
        else if d.isDataAddr new then some (.leaData new)
        else some (.imm new)

def classifyDelta (prev cur : RegFile) (lastEv : Bool) : List (Reg × Op) :=
  GP_REGS.filterMap fun rn => (d.classify prev cur lastEv rn).map (rn,·)

end VMDevirtualizer

def Op.insn (rn : Reg) (op : Op) : Insn :=
  match op with
  | .ret => .movReg rn .rax
  | .reg src => .movReg rn src
  | .iat info => .movIat rn info
  | .leaRsp off => .leaRsp rn off
  | .leaData addr => .leaData rn addr
  | .imm v =>
    if v ≥ 0xFFFFFFFF80000000 then .mov32 rn v.toUInt32
    else if v ≤ 0xFFFFFFFF then .mov32 rn v.toUInt32
    else .mov64 rn v

def FrameWrite.insn : FrameWrite → Insn
  | .sq off v => if v ≥ 0x80000000 then .storeDword off v else .storeQword off v
  | .sd off v => .storeDword off v

/-- What `_reconstruct` keeps from the event before. -/
structure Past where
  prev : RegFile
  pf : Snap
  lastEv : Bool

/-- The lines for one call that is not a marker. -/
structure Emitted where
  moves : List Insn
  stores : List Insn
  call : CallTarget

namespace VMDevirtualizer
variable (d : VMDevirtualizer)

def fresh : Past := ⟨d.preVmRegs,freshSnap d.frameSize,false⟩

/-- After a marker call only `rax` is replaced; after any other call the
volatile registers are too. -/
def next (ev : Event) : Past where
  prev:=fun r =>
    if r=.rax then ev.ret
    else if r∈WIN64_VOLATILE ∧ isMarkerDll ev.dll=false then Sentinel.clobber r ev.i
    else ev.regs r
  pf:=ev.frame
  lastEv:=true

def callTarget (ev : Event) : CallTarget :=
  match ev.via with
  | some r => .via r
  | none => match d.hookMap.get ev.hook with
    | some info => .iat info.sym
    | none => .iat ("dark_".toList++Nat.toDigits 10 ev.i)

def emit (past : Past) (ev : Event) : Option Emitted :=
  if isMarkerDll ev.dll then none
  else some
    { moves := (d.classifyDelta past.prev ev.regs past.lastEv).map fun p => p.2.insn p.1
      stores := (frameDelta d.frameSize past.pf ev.frame).map FrameWrite.insn
      call := d.callTarget ev }

/-- The loop of `_reconstruct`: what is emitted for each event in turn. -/
def emitAll (past : Past) : List Event → List (Option Emitted)
  | [] => []
  | ev::evs => d.emit past ev::emitAll (next ev) evs

def reconstruct : List Line :=
  ((d.emitAll d.fresh d.events).reduceOption.flatMap fun e =>
    (e.moves++e.stores).map .insn++[.call e.call])++[.jmp d.vmExitAddr]

/-- The past at the `k`-th event. -/
def pastAt (k : Nat) : Past :=
  match k with
  | 0 => d.fresh
  | k+1 => ((d.events[k]?).map next).getD d.fresh

theorem emitAll_get (past : Past) (evs : List Event) (k : Nat) :
    (d.emitAll past evs)[k+1]?=(evs[k+1]?).bind fun ev => (evs[k]?).map fun e =>
      d.emit (next e) ev := by
  induction evs generalizing past k with
  | nil => rfl
  | cons e evs ih =>
    rw [emitAll,List.getElem?_cons_succ,List.getElem?_cons_succ]
    cases k with
    | zero => cases evs <;> rfl
    | succ k =>
      rw [ih (next e) k,List.getElem?_cons_succ]

theorem emitted_at (k : Nat) :
    (d.emitAll d.fresh d.events)[k]?=(d.events[k]?).map (d.emit (d.pastAt k)) := by
  cases k with
  | zero =>
    cases h : d.events with
    | nil => rfl
    | cons e evs => rfl
  | succ k =>
    rw [emitAll_get,pastAt]
    cases h1 : d.events[k+1]? with
    | none => rfl
    | some ev =>
      obtain ⟨hl,-⟩:=List.getElem?_eq_some_iff.mp h1
      rw [List.getElem?_eq_getElem (Nat.lt_of_succ_lt hl)]
      rfl

/-- What is emitted for the `k`-th event. -/
def emittedAt (k : Nat) : Option Emitted := ((d.emitAll d.fresh d.events)[k]?).join

theorem emittedAt_eq (k : Nat) : d.emittedAt k=(d.events[k]?).bind (d.emit (d.pastAt k)) := by
  rw [emittedAt,emitted_at]
  cases d.events[k]? <;> rfl

theorem events_get (k : Nat) : d.events[k]?=(d.traps[k]?).map (record d.frameSize k) := by
  rw [events,List.getElem?_mapIdx]

end VMDevirtualizer
end Devirt
