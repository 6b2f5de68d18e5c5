import IdaMcp.Ida.Functions

/-!
# Disassembly and pseudocode (`src/ida/handlers/disasm.rs`)
-/

namespace Ida
open Lib Rpc

/-- Lines 34-55, the lines of at most `count` heads. -/
def disasmLoop (db : Idb) : (count : Nat) → UInt64 → List String
  | 0,_ => []
  | count+1,current => match db.disasmLine current with
    | none => []
    | some line =>
      let text:=hexText current++":\t"++line
      match db.insnLen current with
      | some len => text::disasmLoop db count (current+len)
      | none => match db.nextHead current with
        | some next => if next ≤ current then [text] else text::disasmLoop db count next
        | none => [text]

/-- Lines 28-62. -/
def handleDisasm (idb : Option Idb) (addr count : UInt64) : Handled String :=
  match idb with
  | none => .fail .noDatabaseOpen
  | some db =>
    let lines:=disasmLoop db count.toNat addr
    withCapacity 24 count (if lines.isEmpty then .error (.addressOutOfRange addr)
      else .ok ("\n".intercalate lines))

/-- Lines 9-26. -/
def handleDisasmByName (idb : Option Idb) (name : String) (count : UInt64) : Handled String :=
  match idb with
  | none => .fail .noDatabaseOpen
  | some db => match db.functionNamed name with
    | some f => handleDisasm (some db) f.start count
    | none => .fail (.functionNameNotFound name)

def Statement.json (s : Statement) : Json :=
  .ofFields [("address",.str (hexText s.address)),
    ("text",.str (String.ofList (trim s.text.toList))),
    ("opcode",s.opcode),("bounds",match s.bounds with
      | some (start,finish) =>
        .ofFields [("start",.str (hexText start)),("end",.str (hexText finish))]
      | none => .null)]

structure Scan where
  seen : List UInt64 := []
  statements : List Json := []
  scanned : Nat := 0

def Scan.push (acc : Scan) (s : Statement) : Scan :=
  if acc.seen.contains s.address then acc
  else {acc with seen := s.address::acc.seen,statements := acc.statements++[s.json]}

/-- One look at an address. -/
def Scan.visit (cfunc : CFunc) (acc : Scan) (addr : UInt64) : Scan :=
  let acc:={acc with scanned := acc.scanned+1}
  ((cfunc.statementsAt addr).getD []).foldl Scan.push acc

theorem toNat_succ {cur finish : UInt64} (h : cur < finish) : (cur+1).toNat=cur.toNat+1 := by
  have hlt:=UInt64.lt_iff_toNat_lt.mp h
  have hf:=finish.toNat_lt
  rw [UInt64.toNat_add,UInt64.toNat_one,Nat.mod_eq_of_lt (by omega)]

/-- Lines 213-235. -/
def Scan.range (cfunc : CFunc) (acc : Scan) (cur finish : UInt64) : Scan :=
  if h : cur < finish then Scan.range cfunc (acc.visit cfunc cur) (cur+1) finish else acc
  termination_by finish.toNat-cur.toNat
  decreasing_by
    have hlt:=UInt64.lt_iff_toNat_lt.mp h
    rw [toNat_succ h]
    omega

def pseudocodeReply (f : Function) (cfunc : CFunc) (addr : UInt64) (endAddr : Option UInt64)
    (scan : Scan) : Json :=
  .ofFields [("function",.ofFields [("address",.str (hexText f.start)),("name",.str f.shownName),
      ("start",.str (hexText f.start)),("end",.str (hexText f.finish))]),
    ("query_address",.str (hexText addr)),
    ("query_end_address",.ofOption (endAddr.map hexText)),
    ("eamap_ready",.bool cfunc.hasEamap),("statements",.arr scan.statements),
    ("count",.ofNat scan.statements.length)]

/-- Lines 180-272. -/
def handlePseudocodeAt (idb : Option Idb) (addr : UInt64) (endAddr : Option UInt64) :
    Handled Json :=
  match idb with
  | none => .fail .noDatabaseOpen
  | some db =>
    if !db.decompilerAvailable then .fail .decompilerUnavailable
    else match db.functionAt addr with
      | none => .fail (.functionNotFound addr)
      | some f => match db.decompile f with
        | .error message => .fail (.idaError message)
        | .ok cfunc =>
          let scan:=match endAddr with
            | some finish => Scan.range cfunc {} addr finish
            | none => Scan.visit cfunc {} addr
          { result := some (.ok (pseudocodeReply f cfunc addr endAddr scan))
            scanned := scan.scanned }

/-- The database has code to show for the function at an address. -/
def Idb.Decompiles (db : Idb) (addr : UInt64) (f : Function) : Prop :=
  db.decompilerAvailable=true ∧ db.functionAt addr=some f ∧ ∃ cfunc,db.decompile f=.ok cfunc

@[simp] theorem Scan.scanned_push (acc : Scan) (s : Statement) :
    (acc.push s).scanned=acc.scanned := by
  unfold Scan.push
  split <;> rfl

@[simp] theorem Scan.scanned_foldl (acc : Scan) (ss : List Statement) :
    (ss.foldl Scan.push acc).scanned=acc.scanned := by
  induction ss generalizing acc with
  | nil => rfl
  | cons s ss ih => rw [List.foldl_cons,ih,Scan.scanned_push]

@[simp] theorem Scan.scanned_visit (cfunc : CFunc) (acc : Scan) (addr : UInt64) :
    (acc.visit cfunc addr).scanned=acc.scanned+1 := Scan.scanned_foldl _ _

theorem Scan.scanned_range (cfunc : CFunc) (acc : Scan) (cur finish : UInt64) :
    (Scan.range cfunc acc cur finish).scanned=acc.scanned+(finish.toNat-cur.toNat) := by
  fun_induction Scan.range cfunc acc cur finish with
  | case1 acc cur h ih =>
    have hlt:=UInt64.lt_iff_toNat_lt.mp h
    rw [ih,Scan.scanned_visit,toNat_succ h]
    omega
  | case2 acc cur h =>
    have hle : finish.toNat ≤ cur.toNat :=
      Nat.le_of_not_lt fun hlt => h (UInt64.lt_iff_toNat_lt.mpr hlt)
    rw [Nat.sub_eq_zero_of_le hle]
    rfl

end Ida
