import IdaMcp.Devirt.Lines
import IdaMcp.Devirt.Registers
import Mathlib.Data.List.ReduceOption

/-!
# What the emitted calls go through

A call goes through the slot of its operand or through a register. The lines
are run on registers of which one thing is kept: the slot whose content they
hold, if it is one. The function that is called may change `rax` and the
volatile registers.
-/

namespace Devirt
open Lib

abbrev Holds (α : Type) := Reg → Option α

def afterCall {α : Type} (h : Holds α) : Holds α :=
  fun r => if r=.rax ∨ r∈WIN64_VOLATILE then none else h r

/-- A line with the name of its slot. -/
def Line.named (ln : Line) : Line × Option (List Char) := (ln,ln.iatSym)

section
variable {α β γ : Type}

end

/-- A move as it carries names. -/
def Op.carries (rn : Reg) (op : Op) : Move Reg (Option (List Char)) where
  dst:=rn
  source:=match op with
    | .ret => .read .rax id
    | .reg src => .read src id
    | .iat info => .value (some info.sym)
    | _ => .value none

def Emitted.lines (e : Emitted) : List Line := (e.moves++e.stores).map .insn++[.call e.call]

namespace VMDevirtualizer
variable (d : VMDevirtualizer)

/-- What the event after these is compared with. -/
def pastAfter (done : List Event) : Past := (done.getLast?.map next).getD d.fresh

/-- The register gets the hook of the entry, and no register had it before from
which it could be copied. -/
structure Loads (past : Past) (ev : Event) (r : Reg) (info : HookInfo) : Prop where
  emitted : isMarkerDll ev.dll=false
  dst : r≠.rsp
  entry : d.hookMap.get (ev.regs r)=some info
  clean : Sentinel.isClobber (ev.regs r)=false
  fresh : ∀ s,s≠.rsp → past.prev s≠ev.regs r

/-- One of the events loads the register, which has had the hook at all events
since, and no call could change it. -/
def CarriedSince (done : List Event) (r : Reg) (info : HookInfo) : Prop :=
  ∃ before ev since,done=before++ev::since ∧ d.Loads (d.pastAfter before) ev r info ∧
    (∀ x∈since,x.regs r=info.hook) ∧ (since≠[] → r≠.rax ∧ r∉WIN64_VOLATILE)

/-- The registers just before the call of an event. -/
def atCall (past : Past) (ev : Event) (h : Holds (List Char)) : Holds (List Char) :=
  Move.runAll ((d.classifyDelta past.prev ev.regs past.lastEv).map fun p => p.2.carries p.1) h

def goesThrough (ev : Event) (h : Holds (List Char)) : Option (List Char) :=
  match d.callTarget ev with
  | .via r => h r
  | .iat sym => some sym

def perform (past : Past) (h : Holds (List Char)) :
    List Event → List (Event × Option (List Char))
  | [] => []
  | ev::evs =>
    if isMarkerDll ev.dll then perform (next ev) h evs
    else (ev,d.goesThrough ev (d.atCall past ev h))::
      perform (next ev) (afterCall (d.atCall past ev h)) evs

section
variable {past : Past} {ev : Event} {r : Reg}

theorem carries_ordered (prev cur : RegFile) (lastEv : Bool) :
    Move.Ordered Reg.index ((d.classifyDelta prev cur lastEv).map fun p => p.2.carries p.1) := by
  rw [Move.Ordered,List.pairwise_map,classifyDelta]
  refine List.Pairwise.filterMap _ ?_ GP_REGS_ordered
  intro r s hrs p hp q hq
  obtain ⟨o,-,rfl⟩:=Option.map_eq_some_iff.mp hp
  obtain ⟨u,-,rfl⟩:=Option.map_eq_some_iff.mp hq
  exact hrs

theorem atCall_same (h : Holds (List Char)) (hsame : ev.regs r=past.prev r) :
    d.atCall past ev h r=h r := by
  refine Move.runAll_of_ne _ _ _ fun m hm hd => ?_
  obtain ⟨⟨rn,op⟩,hp,rfl⟩:=List.mem_map.mp hm
  have hop:=d.classify_explains (d.mem_classifyDelta.mp hp)
  have hrn : rn=r := hd
  exact hop.2.1 (hrn ▸ hsame)

theorem Loads.classify_eq {info : HookInfo} (hl : d.Loads past ev r info) :
    d.classify past.prev ev.regs past.lastEv r=some (.iat info) := by
  have hsrc : findRegSrc r (ev.regs r) past.prev=none := by
    rw [findRegSrc]
    split
    · rfl
    · refine List.find?_eq_none.mpr fun s _ hs => ?_
      simp only [ne_eq,decide_not,Bool.and_eq_true,Bool.not_eq_eq_eq_not,Bool.not_true,
        decide_eq_false_iff_not,beq_iff_eq] at hs
      exact hl.fresh s hs.1.2 hs.2
  simp only [classify,if_neg hl.dst,if_neg (hl.fresh r hl.dst).symm,hl.clean,Bool.false_eq_true,
    if_false,hsrc,hl.entry]
  rw [if_neg fun hret => hl.fresh .rax (by decide) hret.2.symm]

theorem atCall_load {info : HookInfo} (hl : d.Loads past ev r info) (h : Holds (List Char)) :
    d.atCall past ev h r=some info.sym := by
  refine (d.carries_ordered _ _ _).run_value h (List.mem_map.mpr ⟨(r,.iat info),?_,rfl⟩)
  exact d.mem_classifyDelta.mpr (hl.classify_eq d)

end

/-- The registers hold the slots of what was carried so far. -/
def Held (done : List Event) (h : Holds (List Char)) : Prop :=
  ∀ r info,d.CarriedSince done r info → r≠.rax → r∉WIN64_VOLATILE → h r=some info.sym

section
variable {done : List Event} {ev : Event} {r : Reg} {info : HookInfo} {h : Holds (List Char)}

/-- It is the last event that loads the register, or an earlier one. -/
theorem carriedSince_append (hc : d.CarriedSince (done++[ev]) r info) :
    d.Loads (d.pastAfter done) ev r info ∨
      d.CarriedSince done r info ∧ ev.regs r=info.hook ∧ (d.pastAfter done).prev r=info.hook ∧
        r≠.rax ∧ r∉WIN64_VOLATILE := by
  obtain ⟨before,x,since,he,hl,hall,hkept⟩:=hc
  rcases List.eq_nil_or_concat' since with rfl | ⟨since,y,rfl⟩
  · obtain ⟨rfl,hx⟩:=List.append_inj' he rfl
    rw [List.cons.inj hx |>.1]
    exact .inl hl
  · rw [show before++x::(since++[y])=(before++x::since)++[y] by simp] at he
    obtain ⟨rfl,hy⟩:=List.append_inj' he rfl
    obtain ⟨hrax,hvol⟩:=hkept (by simp)
    refine .inr ⟨⟨before,x,since,rfl,hl,fun z hz => hall z (List.mem_append_left _ hz),
      fun _ => ⟨hrax,hvol⟩⟩,?_,?_,hrax,hvol⟩
    · rw [List.cons.inj hy |>.1]
      exact hall y (List.mem_append_right _ List.mem_cons_self)
    · -- the last event before had the hook in the register, and its call left it there
      have hprev : ∀ z : Event,z.regs r=info.hook → (next z).prev r=info.hook := by
        intro z hz
        simp only [next,if_neg hrax]
        rw [if_neg fun hv => hvol hv.1,hz]
      rw [pastAfter,List.getLast?_append_cons]
      rcases List.eq_nil_or_concat' since with rfl | ⟨since,z,rfl⟩
      · exact hprev x (HookMap.hook_of_get hl.entry).symm
      · rw [← List.cons_append,List.getLast?_concat]
        exact hprev z (hall z (by simp))

theorem Held.atCall (hh : d.Held done h) (hc : d.CarriedSince (done++[ev]) r info) :
    d.atCall (d.pastAfter done) ev h r=some info.sym := by
  rcases d.carriedSince_append hc with hl | ⟨hc,hr,hp,hrax,hvol⟩
  · exact d.atCall_load hl h
  · rw [d.atCall_same h (hr.trans hp.symm)]
    exact hh r info hc hrax hvol

theorem Held.next (hh : d.Held done h) (ev : Event) :
    d.Held (done++[ev])
      (if isMarkerDll ev.dll then h else afterCall (d.atCall (d.pastAfter done) ev h)) := by
  intro r info hc hrax hvol
  split
  · next hm =>
    rcases d.carriedSince_append hc with hl | ⟨hc,-⟩
    · exact absurd hm (by rw [hl.emitted]; decide)
    · exact hh r info hc hrax hvol
  · rw [afterCall,if_neg fun hv => hv.elim hrax hvol]
    exact hh.atCall d hc

end

/-- Every call through a register is by one that carries the entry called. -/
def Carries : Prop :=
  ∀ before ev after,d.events=before++ev::after → isMarkerDll ev.dll=false →
    ∀ info r,d.hookMap.get ev.hook=some info → ev.via=some r →
      d.CarriedSince (before++[ev]) r info

end VMDevirtualizer
end Devirt
