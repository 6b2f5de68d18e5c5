import IdaMcp.Scripts.DebugLiterals
import IdaMcp.Scripts.Injection

/-!
# What a client's string does to a debug script

A path, an argument string or a condition is read back when it stays on one line
and has no escape in it; the name of a debugger or register, a breakpoint type
and hexadecimal data must not have a double quote either, and the name of a
debugger no brace.
-/

namespace Scripts
open Lib.Python
variable (s : Slot)
variable (t : Fixed)

/-- What a debug handler is asked to do. -/
inductive DebugCall where
  | loadDebugger (debuggerName : String) (isRemote : Bool) (debugServerPath : Option String)
  | startProcess (path args startDir : Option String) (timeout : Nat)
      (debugServerPath : Option String)
  | attachProcess (pid : Option Nat) (timeout : Nat) (debugServerPath : Option String)
  | getRegisters (names : Option (List String))
  | setRegister (registerName : String) (value : Nat)
  | writeMemory (address : Nat) (dataHex : String)
  | addBreakpoint (address size : Nat) (bptType : String) (condition : Option String)

def DebugCall.script : DebugCall → List Part
  | .loadDebugger name isRemote srv => generateLoadDebuggerScript name isRemote srv
  | .startProcess path args dir timeout srv => generateStartProcessScript path args dir timeout srv
  | .attachProcess pid timeout srv => generateAttachProcessScript pid timeout srv
  | .getRegisters names => generateGetRegistersScript names
  | .setRegister name value => generateSetRegisterScript name value
  | .writeMemory address hex => generateWriteMemoryScript address hex
  | .addBreakpoint address size type cond => generateAddBreakpointScript address size type cond

/-- The strings that the client chose. -/
def DebugCall.strings : DebugCall → List String
  | .loadDebugger name _ srv => name::srv.toList
  | .startProcess path args dir _ srv => srv.toList++path.toList++args.toList++dir.toList
  | .attachProcess _ _ srv => srv.toList
  | .getRegisters names => names.getD []
  | .setRegister name _ => [name]
  | .writeMemory _ hex => [hex]
  | .addBreakpoint _ _ type cond => type::cond.toList

def DebugCall.NulFree (call : DebugCall) : Prop := ∀ s ∈ call.strings,Scripts.NulFree s

instance (call : DebugCall) : Decidable call.NulFree :=
  inferInstanceAs (Decidable (∀ s ∈ call.strings,Scripts.NulFree s))

def DebugCall.Clean : DebugCall → Prop
  | .loadDebugger name _ srv =>
    (Exact false name.toList ∧ ∀ c ∈ name.toList,isBrace c=false) ∧
      ∀ s ∈ srv.toList,Exact true s.toList
  | .startProcess path args dir _ srv =>
    ∀ s ∈ srv.toList++path.toList++args.toList++dir.toList,Exact true s.toList
  | .attachProcess _ _ srv => ∀ s ∈ srv.toList,Exact true s.toList
  | .getRegisters names => ∀ s ∈ names.getD [],Exact false s.toList
  | .setRegister name _ => Exact false name.toList
  | .writeMemory _ hex => Exact false hex.toList ∧ ' ' ∉ hex.toList
  | .addBreakpoint _ _ type cond => Exact false type.toList ∧ ∀ s ∈ cond.toList,Exact true s.toList

instance : (call : DebugCall) → Decidable call.Clean
  | .loadDebugger .. | .writeMemory .. | .addBreakpoint .. => inferInstanceAs (Decidable (_ ∧ _))
  | .startProcess .. | .attachProcess .. | .getRegisters .. =>
    inferInstanceAs (Decidable (∀ s ∈ (_ : List String),Exact _ s.toList))
  | .setRegister .. => inferInstanceAs (Decidable (Exact ..))

set_option maxRecDepth 16000 in
theorem fixed_settles : Settles t.string.toList t.word := by
  cases t <;> (
    dsimp only [Fixed.string]
    apply Settles.of_spelled
    · repeat' first | exact .literal _ | apply Spelled.append
    · decide +kernel)

section Placed
variable {ps : List Part}

theorem placed_fixed {word : List Char} (h : Placed (.code t.word) ps) :
    Placed (.code word) (t.part::ps) :=
  (fixed_settles t).placed h word

theorem placed_literal (hf : s.form=stringForm)
    (h : Placed (.code t.word) ps) : Placed (.code []) (.slot s::t.part::ps) := by
  refine (fixed_settles t).placed_slot h s [] ?_ ?_
  · rw [hf]
    exact ⟨.inl rfl,rfl⟩
  · rw [hf]
    exact short_form

theorem placed_bare (s : String) (t : Fixed) (h : Placed (.code t.word) ps) :
    Placed (.code []) (.slot (bare s)::t.part::ps) := placed_literal _ t rfl h

theorem placed_quoteEscaped (s : String) (t : Fixed) (h : Placed (.code t.word) ps) :
    Placed (.code []) (.slot (quoteEscaped s)::t.part::ps) := placed_literal _ t rfl h

theorem placed_message (start name : String) (t : Fixed) (h : Placed (.code t.word) ps) :
    Placed (.code ['f']) (.slot (failMessage start name)::t.part::ps) :=
  (fixed_settles t).placed_slot h _ _ ⟨.inl rfl,rfl⟩ short_form

theorem placed_number (n : Nat) (t : Fixed) (h : Placed (.code t.word) ps) :
    Placed (.code []) (number n::t.part::ps) :=
  (fixed_settles t).placed_word h _ _ (digits_word n).1 (digits_word n).2

theorem placed_none (h : Placed (.code t.word) ps) :
    Placed (.code []) (.text "None".toList::t.part::ps) :=
  (fixed_settles t).placed_word h _ _
    (List.all_eq_true.mp (by decide)) (by decide)

theorem placed_bool (b : Bool) (t : Fixed) (h : Placed (.code t.word) ps) :
    Placed (.code []) (.text (if b then "True" else "False").toList::t.part::ps) := by
  cases b <;> exact (fixed_settles t).placed_word h _ _
    (List.all_eq_true.mp (by decide)) (by decide)

theorem placed_optional (o : Option String) (t : Fixed) (h : Placed (.code t.word) ps) :
    Placed (.code []) (optional o::t.part::ps) := by
  cases o with
  | none => exact placed_none t h
  | some s => exact placed_quoteEscaped s t h

theorem placed_optionalNumber (o : Option Nat) (t : Fixed) (h : Placed (.code t.word) ps) :
    Placed (.code []) (optionalNumber o::t.part::ps) := by
  cases o with
  | none => exact placed_none t h
  | some n => exact placed_number n t h

end Placed

theorem placed_buildScript {body : List Part} (h : Placed (.code []) body) :
    Placed (.code []) (buildScript body) :=
  placed_fixed .headlessPreamble (placed_fixed .newline h)

theorem placed_remote {body : List Part} (h : Placed (.code []) body) :
    Placed (.code []) (Fixed.newline.part::Fixed.dbgsrvHelpers.part::body) :=
  placed_fixed .newline (placed_fixed .dbgsrvHelpers h)

theorem placed_loadDebugger (name : String) (isRemote : Bool) (srv : Option String) :
    Placed (.code []) (generateLoadDebuggerScript name isRemote srv) := by
  refine match srv with
    | none => placed_buildScript ?_
    | some srv => placed_buildScript (placed_remote ?_)
  · refine placed_fixed .loadAlready <| placed_bare name .loadFallbacks <|
      placed_bare name .loadTry <| placed_bool isRemote .loadLoaded <| placed_bare name .loadFail <|
      placed_message _ name .loadEnd trivial
  · refine placed_fixed .loadRemoteAlready <| placed_bare name .loadRemoteServer <|
      placed_quoteEscaped srv .loadRemoteFallbacks <| placed_bare name .loadRemoteTry <|
      placed_bare name .loadRemoteFail <| placed_message _ name .loadEnd trivial

theorem placed_startProcess (path args dir : Option String) (timeout : Nat)
    (srv : Option String) :
    Placed (.code []) (generateStartProcessScript path args dir timeout srv) := by
  cases srv with
  | none =>
    refine placed_buildScript <| placed_fixed .startLocal ?_
    exact placed_optional path .comma <| placed_optional args .comma <|
      placed_optional dir .startWait <| placed_number timeout .startEnd trivial
  | some srv =>
    refine placed_buildScript <| placed_remote <| placed_fixed .startServer ?_
    exact placed_quoteEscaped srv .startRemoteApp <| placed_optional path .startRemoteArgs <|
      placed_optional args .startRemoteDir <| placed_optional dir .startRemoteSpawn <|
      placed_number timeout .startRemoteEnd trivial

theorem placed_attachProcess (pid : Option Nat) (timeout : Nat) (srv : Option String) :
    Placed (.code []) (generateAttachProcessScript pid timeout srv) := by
  cases srv with
  | none =>
    refine placed_buildScript <| placed_fixed .attachPid ?_
    exact placed_optionalNumber pid .attachTry <| placed_number timeout .attachEnd trivial
  | some srv =>
    refine placed_buildScript <| placed_remote <| placed_fixed .attachRemotePid ?_
    exact placed_optionalNumber pid .attachRemoteServer <|
      placed_quoteEscaped srv .attachRemoteTry <| placed_number timeout .attachRemoteEnd trivial

theorem placed_registerNames (n : String) (ns : List String) (ps : List Part)
    (h : Placed (.code []) ps) :
    Placed (.code []) (registerNames (n::ns)++Fixed.namesEnd.part::ps) := by
  induction ns generalizing n with
  | nil => exact placed_bare n .namesEnd h
  | cons m ns ih => exact placed_bare n .comma (ih m)

set_option maxRecDepth 4000 in
theorem allRegisterNames_mode :
    (∃ w,(run (.code []) (newlines allRegisterNames.toList)).2=.code w) ∧
      allRegisterNames.toList.getLast? ≠ some '\r' := by
  have hmode {cs : List Char} (hs : Spelled allRegisterNames cs)
      (hr : (run (.code []) (newlines cs)).2=.code []) (hl : cs.getLast? ≠ some '\r') :
      (∃ w,(run (.code []) (newlines allRegisterNames.toList)).2=.code w) ∧
        allRegisterNames.toList.getLast? ≠ some '\r' := by
    rw [hs.toList]
    exact ⟨⟨[],hr⟩,hl⟩
  apply hmode
  · unfold allRegisterNames
    repeat' first | exact .literal _ | apply Spelled.append
  · decide +kernel
  · decide +kernel

theorem placed_filterCode (names : Option (List String)) (ps : List Part)
    (h : ∀ w,Placed (.code w) ps) : Placed (.code []) (filterCode names++ps) := by
  have hall : Placed (.code []) (.text allRegisterNames.toList::ps) := by
    obtain ⟨⟨w,hw⟩,hl⟩ := allRegisterNames_mode
    refine ⟨fun _ => hl,?_⟩
    rw [hw]
    exact h w
  match names with
  | none => exact hall
  | some [] => exact hall
  | some (n::ns) =>
    have hopen : (run (.code []) (newlines "names = [".toList)).2=.code [] := by decide
    rw [filterCode,List.cons_append,List.append_assoc]
    refine ⟨fun _ => by decide,?_⟩
    rw [hopen]
    exact placed_registerNames n ns ps (h [])

theorem placed_addBreakpoint (address size : Nat) (type : String) (cond : Option String) :
    Placed (.code []) (generateAddBreakpointScript address size type cond) := by
  have hend : Placed (.code [])
      [Fixed.breakpointResult.part,number address,Fixed.breakpointEnd.part] :=
    placed_fixed .breakpointResult <| placed_number address .breakpointEnd trivial
  refine placed_buildScript <| placed_fixed .breakpointType ?_
  refine placed_bare type .breakpointAddress <| placed_number address .comma <|
    placed_number size .breakpointAdd ?_
  cases cond with
  | none => exact hend
  | some c =>
    exact placed_fixed .conditionAddress <| placed_number address .conditionText <|
      placed_quoteEscaped c .conditionEnd hend

theorem DebugCall.placed_script (call : DebugCall) : Placed (.code []) call.script := by
  cases call with
  | loadDebugger name isRemote srv => exact placed_loadDebugger name isRemote srv
  | startProcess path args dir timeout srv => exact placed_startProcess path args dir timeout srv
  | attachProcess pid timeout srv => exact placed_attachProcess pid timeout srv
  | getRegisters names =>
    exact placed_buildScript <| placed_fixed .registersState <|
      placed_filterCode names _ fun _ => placed_fixed .registersEnd trivial
  | setRegister name value =>
    exact placed_buildScript <| placed_fixed .setRegisterState <|
      placed_number value .setRegisterName <| placed_bare name .setRegisterResult <|
      placed_bare name .setRegisterValue <| placed_number value .setRegisterEnd trivial
  | writeMemory address hex =>
    exact placed_buildScript <| placed_fixed .writeMemoryData <|
      placed_literal (cleanHex hex) .writeMemoryAddress rfl <|
      placed_number address .writeMemoryResult <| placed_number address .writeMemoryEnd trivial
  | addBreakpoint address size type cond => exact placed_addBreakpoint address size type cond

/-- The literals of a script: each string stands in one or more of them. -/
def DebugCall.slots : DebugCall → List Slot
  | .loadDebugger name _ (some srv) =>
    [bare name,quoteEscaped srv,failMessage "Failed to load remote debugger '" name]
  | .loadDebugger name _ none => [bare name,failMessage "Failed to load debugger '" name]
  | .startProcess path args dir _ srv =>
    (srv.toList++path.toList++args.toList++dir.toList).map quoteEscaped
  | .attachProcess _ _ srv => srv.toList.map quoteEscaped
  | .getRegisters names => (names.getD []).map bare
  | .setRegister name _ => [bare name]
  | .writeMemory _ hex => [cleanHex hex]
  | .addBreakpoint _ _ type cond => bare type::cond.toList.map quoteEscaped

@[simp] theorem slot_ne_fixed : ¬.slot s=t.part := fun h => nomatch h

@[simp] theorem slot_ne_number (n : Nat) : ¬.slot s=number n := fun h => nomatch h

@[simp] theorem slot_eq_optional (o : Option String) :
    .slot s=optional o ↔ s ∈ o.toList.map quoteEscaped := by
  cases o <;> simp [optional]

@[simp] theorem slot_ne_optionalNumber (o : Option Nat) : ¬.slot s=optionalNumber o := by
  cases o <;> exact fun h => nomatch h

theorem slot_mem_registerNames (ns : List String) :
    .slot s ∈ registerNames ns ↔ s ∈ ns.map bare := by
  induction ns using registerNames.induct with
  | case1 => simp [registerNames]
  | case2 n => simp [registerNames]
  | case3 n m ns ih => simp [registerNames,ih]

theorem slot_mem_filterCode (names : Option (List String)) :
    .slot s ∈ filterCode names ↔ s ∈ (names.getD []).map bare := by
  match names with
  | none => simp [filterCode]
  | some [] => simp [filterCode]
  | some (n::ns) => simp [filterCode,slot_mem_registerNames]

theorem DebugCall.slot_mem_script (call : DebugCall) : .slot s ∈ call.script ↔ s ∈ call.slots := by
  cases call with
  | loadDebugger name isRemote srv =>
    cases srv with
    | none => simp [script,slots,generateLoadDebuggerScript,buildScript]
    | some srv =>
      simp [script,slots,generateLoadDebuggerScript,buildScript]
      tauto
  | startProcess path args dir timeout srv =>
    cases srv <;> simp [script,slots,generateStartProcessScript,buildScript]
  | attachProcess pid timeout srv =>
    cases srv <;> simp [script,slots,generateAttachProcessScript,buildScript]
  | getRegisters names =>
    simp [script,slots,generateGetRegistersScript,buildScript,slot_mem_filterCode]
  | setRegister name value =>
    simp [script,slots,generateSetRegisterScript,buildScript]
  | writeMemory address hex =>
    simp [script,slots,generateWriteMemoryScript,buildScript]
  | addBreakpoint address size type cond =>
    cases cond <;>
      simp [script,slots,generateAddBreakpointScript,buildScript,conditionBlock]

theorem escaped_slots (ss : List String) (h0 : ∀ s ∈ ss,NulFree s) :
    (∀ t ∈ ss.map quoteEscaped,t.Good) ↔ ∀ s ∈ ss,Exact true s.toList := by
  rw [List.forall_mem_map]
  exact forall₂_congr fun s hs => quoteEscaped_iff s (h0 s hs)

theorem bare_slots (ss : List String) (h0 : ∀ s ∈ ss,NulFree s) :
    (∀ t ∈ ss.map bare,t.Good) ↔ ∀ s ∈ ss,Exact false s.toList := by
  rw [List.forall_mem_map]
  exact forall₂_congr fun s hs => bare_iff s (h0 s hs)

theorem name_slots {start name : String} (hs : MessageStart start) (h0 : NulFree name) :
    (bare name).Good ∧ (failMessage start name).Good ↔
      Exact false name.toList ∧ ∀ c ∈ name.toList,isBrace c=false := by
  rw [bare_iff name h0]
  exact and_congr_right fun he => failMessage_iff hs he h0

theorem DebugCall.slots_good_iff (call : DebugCall) (h0 : call.NulFree) :
    (∀ s ∈ call.slots,s.Good) ↔ call.Clean := by
  cases call with
  | loadDebugger name isRemote srv =>
    obtain ⟨hn,hsrv⟩ := List.forall_mem_cons.mp h0
    cases srv with
    | none =>
      rw [slots,List.forall_mem_cons,List.forall_mem_singleton,name_slots messageStart_local hn]
      exact (and_iff_left fun s hs => absurd hs List.not_mem_nil).symm
    | some srv =>
      have hp := quoteEscaped_iff srv (hsrv srv List.mem_cons_self)
      rw [slots,List.forall_mem_cons,List.forall_mem_cons,List.forall_mem_singleton,
        and_left_comm,and_comm,name_slots messageStart_remote hn,hp,Clean,Option.toList_some,
        List.forall_mem_singleton]
  | startProcess path args dir timeout srv => exact escaped_slots _ h0
  | attachProcess pid timeout srv => exact escaped_slots _ h0
  | getRegisters names => exact bare_slots _ h0
  | setRegister name value =>
    rw [slots,List.forall_mem_singleton]
    exact bare_iff name (h0 name (List.mem_singleton_self _))
  | writeMemory address hex =>
    rw [slots,List.forall_mem_singleton]
    exact cleanHex_iff hex (h0 hex (List.mem_singleton_self _))
  | addBreakpoint address size type cond =>
    obtain ⟨ht,hc⟩ := List.forall_mem_cons.mp h0
    rw [slots,List.forall_mem_cons,bare_iff type ht,escaped_slots _ hc]
    rfl

/-- The same of the scripts of the debugger. -/
theorem debug_script_intact_iff (call : DebugCall) (h0 : call.NulFree) :
    Intact call.script ↔ call.Clean := by
  rw [intact_iff _ call.placed_script,← call.slots_good_iff h0]
  exact forall_congr' fun s => by rw [call.slot_mem_script]

theorem debug_script_intact_breakpoint :
    Intact (DebugCall.addBreakpoint 0x401000 1 "soft" (some "GetString(\"a\")")).script :=
  (debug_script_intact_iff _ (by decide)).mpr (by decide)

/-- The condition `\"+os.abort()#` is put there as `\\"+os.abort()#`: the backslash
is escaped by the one that was meant for the quote, and the quote ends the literal. -/
theorem condition_ends_literal :
    ¬Intact (DebugCall.addBreakpoint 0x401000 1 "soft" (some "\\\"+os.abort()#")).script := by
  rw [intact_iff _ (DebugCall.placed_script _)]
  intro h
  have hs := h (quoteEscaped "\\\"+os.abort()#") ((DebugCall.slot_mem_script ..).mpr (by
    simp [DebugCall.slots]))
  have hq := (quoteEscaped_iff _ (by decide)).mp hs
  exact absurd hq (by decide)

end Scripts
