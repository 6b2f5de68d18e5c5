import Mathlib.Data.List.Forall2
import IdaMcp.Lib.Python.Calls
import IdaMcp.Scripts.Literals

/-!
# The scripts that load modules of a shared cache (`src/dsc.rs`)

A module name goes between double quotes, behind a message or alone as the
argument of `dscu_load_module`. `escape_python_string` of `dsc.rs` is the one of
the idat scripts.
-/

namespace Scripts
open Lib.Python
variable {module : String} {frameworks : List String}

/-- A literal around a fixed text and a name. -/
def named (start : String) (name : String) : Slot :=
  { form := .ofWord [] '"'
    inner := start.toList++escapePythonString name
    Means := fun body =>
      (Form.ofWord [] '"').value? body=some (start.toList++name.toList) }

def loadHead : String :=
  "import idaapi\nfrom idc import *\n\ndef dscu_load_module(module):\n"++
  "    node = idaapi.netnode()\n    node.create(\"$ dscu\")\n    node.supset(2, module)\n"++
  "    load_and_run_plugin(\"dscu\", 1)\n\n# Load primary module\nprint("

def loadTail : String :=
  "\n# ObjC type analysis\nprint(\"[ida-cli] analyzing objc types\")\n"++
  "load_and_run_plugin(\"objc\", 1)\n"++
  "print(\"[ida-cli] analyzing NSConcreteGlobalBlock objects\")\n"++
  "load_and_run_plugin(\"objc\", 4)\n\n# Auto-analysis\n"++
  "print(\"[ida-cli] performing auto-analysis...\")\nauto_mark_range(0, BADADDR, AU_FINAL)\n"++
  "auto_wait()\n\n# Stack block analysis\n"++
  "print(\"[ida-cli] analyzing NSConcreteStackBlock objects\")\n"++
  "load_and_run_plugin(\"objc\", 5)\n\nprint(\"[ida-cli] DSC module loading complete\")\n"

/-- A message about a name, and the call with the name. -/
def loadCall (start name : String) : List Part :=
  [.slot (named start name),.text ")\ndscu_load_module(".toList,.slot (named "" name),
    .text ")\n".toList]

/-- Lines 125-131. -/
def frameworkParts (framework : String) : List Part :=
  .text "\nprint(".toList::loadCall "[ida-cli] loading framework: " framework

/-- Lines 99-154. -/
def dscLoadScript (module : String) (frameworks : List String) : List Part :=
  .text loadHead.toList::(loadCall "[ida-cli] loading module: " module++
    (frameworks.flatMap frameworkParts++[.text loadTail.toList]))

/-- Lines 156-175. -/
def runPluginCheckedPython : String :=
  "\ndef run_plugin_checked(name, arg, context, strict_nonzero=False):\n"++
  "    def plugin_failed():\n"++
  "        raise RuntimeError(f\"\x7bname\x7d plugin failed during \x7bcontext\x7d (return=\x7brc!r\x7d)\")\n\n"++
  "    rc = load_and_run_plugin(name, arg)\n    if rc is None:\n        plugin_failed()\n"++
  "    if strict_nonzero and (rc is False or (isinstance(rc, int) and rc <= 0)):\n"++
  "        plugin_failed()\n    if isinstance(rc, int) and rc < 0:\n        plugin_failed()\n"++
  "    return rc\n"

def dylibHead : String :=
  "import idaapi\nfrom idc import *\n\n"++runPluginCheckedPython++
  "\n\ndef dscu_load_module(module):\n    node = idaapi.netnode()\n"++
  "    node.create(\"$ dscu\")\n    node.supset(2, module)\n"++
  "    run_plugin_checked(\"dscu\", 1, f\"loading module \x7bmodule\x7d\", True)\n\nprint("

def dylibPasses : String :=
  "\n# ObjC type analysis (lightweight, no full auto-analysis)\n"++
  "print(\"[ida-cli] analyzing objc types\")\n"++
  "run_plugin_checked(\"objc\", 1, \"objc type analysis\", False)\n"++
  "print(\"[ida-cli] analyzing NSConcreteGlobalBlock objects\")\n"++
  "run_plugin_checked(\"objc\", 4, \"objc global block analysis\", False)\n\nprint("

/-- Lines 185-213. -/
def dscAddDylibScript (module : String) : List Part :=
  .text dylibHead.toList::(loadCall "[ida-cli] loading additional dylib: " module++
    [.text dylibPasses.toList,.slot (named "[ida-cli] dsc_add_dylib complete for: " module),
      .text ")\n".toList])

def Harmless (start : String) : Prop := start.toList.all (fun c => !isSpecial c && c != '\x00')=true

theorem named_good {start name : String} (hs : Harmless start) (h0 : NulFree name) :
    (named start name).Good := by
  have hplain : ∀ c∈start.toList,isSpecial c=false ∧ c≠ '\x00' := by
    intro c hc
    have h:=List.all_eq_true.mp hs c hc
    simp only [Bool.and_eq_true,Bool.not_eq_true',bne_iff_ne] at h
    exact h
  have hself:=(escape_eq_self_iff start.toList).mpr fun c hc => (hplain c hc).1
  -- the literal is the one of the whole text: the fixed part needs no escape
  have hin : (named start name).inner=escapePythonString (start++name) := by
    rw [escapePythonString_eq,String.toList_append,List.flatMap_append,hself,
      ← escapePythonString_eq]
    rfl
  have h0' : '\x00'∉(start++name).toList := by
    rw [String.toList_append,List.mem_append,not_or]
    exact ⟨fun h => (hplain _ h).2 rfl,h0⟩
  constructor
  · intro _
    rw [hin,newlines_escapePythonString,escapePythonString_eq]
    exact unbroken_escape_double _ h0'
  · rw [hin,newlines_escapePythonString]
    have hv:=unescape_escapePythonString (start++name)
    rw [String.toList_append,← value_plain '"'] at hv
    exact hv

theorem fits_named (start name : String) : Fits [] (named start name).form := ⟨.inl rfl,rfl⟩

def loader : List Char := "dscu_load_module".toList
def printed : Seen := .opened "print".toList

/-- The texts that hold no call of the loader, and what was seen last. -/
inductive Between
  | loadHead | loadTail | dylibHead | dylibPasses | print

def Between.string : Between → String
  | .loadHead => Scripts.loadHead
  | .loadTail => Scripts.loadTail
  | .dylibHead => Scripts.dylibHead
  | .dylibPasses => Scripts.dylibPasses
  | .print => "\nprint("

def Between.seen : Between → Seen
  | .loadTail => .word []
  | _ => printed

set_option maxRecDepth 8000 in
theorem passes_between (t : Between) : Passes loader t.string.toList (.word []) t.seen := by
  cases t <;> (
    dsimp only [Between.string,loadHead,loadTail,dylibHead,dylibPasses,runPluginCheckedPython]
    apply Passes.of_spelled
    · repeat' first | exact .literal _ | apply Spelled.append
    · decide +kernel)

theorem call_texts :
    settles ")\ndscu_load_module(".toList []=true ∧ settles ")\n".toList []=true ∧
      (run (.code []) (newlines ")\ndscu_load_module(".toList)).1=
        .char ')'::"\ndscu_load_module(".toList.map Token.char ∧
      (run (.code []) (newlines ")\n".toList)).1=[.char ')',.char '\n'] ∧
      scan loader (.word []) (.char ')'::"\ndscu_load_module(".toList.map Token.char)=
        ([],.opened loader) ∧ "print".toList≠loader := by
  decide

theorem settles_call : Settles ")\ndscu_load_module(".toList [] := .of_check call_texts.1
theorem settles_callEnd : Settles ")\n".toList [] := .of_check call_texts.2.1

section Call
variable {start name : String} {ps : List Part}

theorem placed_loadCall (h : Placed (.code []) ps) :
    Placed (.code []) (loadCall start name++ps) := by
  have hend:=settles_callEnd.placed_slot h (named "" name) [] (fits_named "" name)
    fun ht => Bool.noConfusion ht
  exact settles_call.placed_slot hend (named start name) [] (fits_named start name)
    fun ht => Bool.noConfusion ht

theorem scan_loadCall : (scan loader printed (readParts (.code []) (loadCall start name++ps)).1).1=
    ((named "" name).form,newlines (named "" name).inner)::
      (scan loader (.word []) (readParts (.code []) ps).1).1 := by
  obtain ⟨-,-,hcallTokens,hendTokens,hscan,hprint⟩:=call_texts
  have hopen : ∀ f body ts,scan loader printed (.literal f body::ts)=
      scan loader (.given "print".toList f body) ts := fun _ _ _ => rfl
  have hcall : ∀ f body ts,scan loader (.opened loader) (.literal f body::ts)=
      scan loader (.given loader f body) ts := fun _ _ _ => rfl
  have hnewline : ∀ ts,scan loader (.word []) (.char '\n'::ts)=scan loader (.word []) ts :=
    fun _ => rfl
  rw [loadCall,List.cons_append,List.cons_append,List.cons_append,List.singleton_append]
  simp only [readParts]
  rw [settles_callEnd.mode,hcallTokens,hendTokens,hopen,List.cons_append,
    scan_given_other hprint,← List.cons_append,scan_append,hscan,List.nil_append,hcall,
    List.cons_append,scan_given_call,List.singleton_append,hnewline]

theorem placed_frameworks (frameworks : List String) (h : Placed (.code []) ps) :
    Placed (.code []) (frameworks.flatMap frameworkParts++ps) := by
  induction frameworks with
  | nil => exact h
  | cons framework frameworks ih =>
    rw [List.flatMap_cons,frameworkParts,List.cons_append,List.cons_append,List.append_assoc]
    exact (passes_between .print).placed (placed_loadCall ih)

end Call

theorem placed_dscLoadScript (module : String) (frameworks : List String) :
    Placed (.code []) (dscLoadScript module frameworks) :=
  (passes_between .loadHead).placed (placed_loadCall (placed_frameworks frameworks
    ((passes_between .loadTail).placed trivial)))

theorem placed_dscAddDylibScript (module : String) :
    Placed (.code []) (dscAddDylibScript module) := by
  have hnil : Placed (.code []) [] := trivial
  have hend:=settles_callEnd.placed_slot hnil
    (named "[ida-cli] dsc_add_dylib complete for: " module) [] (fits_named _ _)
    fun ht => Bool.noConfusion ht
  exact (passes_between .dylibHead).placed
    (placed_loadCall ((passes_between .dylibPasses).placed hend))

theorem harmless_starts : Harmless "" ∧ Harmless "[ida-cli] loading module: " ∧
    Harmless "[ida-cli] loading framework: " ∧ Harmless "[ida-cli] loading additional dylib: " ∧
    Harmless "[ida-cli] dsc_add_dylib complete for: " := by
  unfold Harmless
  decide

theorem slots_loadCall {start name : String} (hs : Harmless start) (h0 : NulFree name) {s : Slot}
    (hm : .slot s∈loadCall start name) : s.Good := by
  simp only [loadCall,List.mem_cons,Part.slot.injEq,reduceCtorEq,List.not_mem_nil,or_false,
    false_or] at hm
  rcases hm with rfl | rfl
  · exact named_good hs h0
  · exact named_good harmless_starts.1 h0

theorem slots_dscLoadScript (hm : NulFree module) (hf : ∀ framework∈frameworks,NulFree framework) :
    ∀ s,.slot s∈dscLoadScript module frameworks → s.Good := by
  intro s hs
  simp only [dscLoadScript,List.mem_cons,List.mem_append,reduceCtorEq,false_or,List.mem_flatMap,
    List.not_mem_nil,or_false] at hs
  rcases hs with hs | ⟨framework,hmem,hs⟩
  · exact slots_loadCall harmless_starts.2.1 hm hs
  · rw [frameworkParts,List.mem_cons] at hs
    rcases hs with hs | hs
    · cases hs
    · exact slots_loadCall harmless_starts.2.2.1 (hf framework hmem) hs

theorem slots_dscAddDylibScript (hm : NulFree module) :
    ∀ s,.slot s∈dscAddDylibScript module → s.Good := by
  intro s hs
  simp only [dscAddDylibScript,List.mem_cons,List.mem_append,reduceCtorEq,false_or,
    Part.slot.injEq,List.not_mem_nil,or_false] at hs
  rcases hs with hs | rfl
  · exact slots_loadCall harmless_starts.2.2.2.1 hm hs
  · exact named_good harmless_starts.2.2.2.2 hm

/-- The values of the arguments that the loader is called with. -/
def loaded (script : List Part) : List (Option (List Char)) :=
  (callArguments loader (render script)).map fun a => a.1.value? a.2

theorem tokens_of_good {script : List Part} (h : Placed (.code []) script)
    (hg : ∀ s,.slot s∈script → s.Good) : tokens (render script)=readParts (.code []) script :=
  h.run_render fun s hs => (hg s hs).1

theorem value_named {name : String} (h0 : NulFree name) :
    (named "" name).form.value? (newlines (named "" name).inner)=some name.toList := by
  have h : (Form.ofWord [] '"').value? (newlines (named "" name).inner)=
      some ("".toList++name.toList) := (named_good harmless_starts.1 h0).2
  rw [String.toList_empty,List.nil_append] at h
  exact h

theorem scan_frameworks (ps : List Part) :
    (scan loader (.word []) (readParts (.code []) (frameworks.flatMap frameworkParts++ps)).1).1=
      (frameworks.map fun framework =>
        ((named "" framework).form,newlines (named "" framework).inner))++
        (scan loader (.word []) (readParts (.code []) ps).1).1 := by
  induction frameworks with
  | nil => rfl
  | cons framework frameworks ih =>
    rw [List.flatMap_cons,frameworkParts,List.cons_append,List.cons_append,List.append_assoc]
    rw [show ("\nprint(".toList)=Between.print.string.toList from rfl,
      (passes_between .print).scan_text]
    exact scan_loadCall.trans (congrArg _ ih)

theorem loaded_dscLoadScript (hm : NulFree module) (hf : ∀ framework∈frameworks,NulFree framework) :
    loaded (dscLoadScript module frameworks)=
      (module::frameworks).map fun name => some name.toList := by
  have ht:=tokens_of_good (placed_dscLoadScript module frameworks) (slots_dscLoadScript hm hf)
  have hnil : (scan loader (.word []) (readParts (.code []) [.text loadTail.toList]).1).1=[] :=
    congrArg Prod.fst (passes_between .loadTail).scan_text
  have hscan : callArguments loader (render (dscLoadScript module frameworks))=
      (module::frameworks).map fun name =>
        ((named "" name).form,newlines (named "" name).inner) := by
    rw [callArguments,ht,dscLoadScript]
    refine (congrArg Prod.fst (passes_between .loadHead).scan_text).trans ?_
    refine scan_loadCall.trans ?_
    rw [scan_frameworks,hnil,List.append_nil]
    rfl
  rw [loaded,hscan,List.map_map]
  refine List.map_congr_left fun name hname => ?_
  dsimp only [Function.comp_apply]
  rcases List.mem_cons.mp hname with rfl | hname
  · exact value_named hm
  · exact value_named (hf name hname)

theorem loaded_dscAddDylibScript (hm : NulFree module) :
    loaded (dscAddDylibScript module)=[some module.toList] := by
  have ht:=tokens_of_good (placed_dscAddDylibScript module) (slots_dscAddDylibScript hm)
  have hprint : "print".toList≠loader := call_texts.2.2.2.2.2
  have hend:=call_texts.2.2.2.1
  -- the message behind the passes is no call of the loader
  have hnil : (scan loader printed (readParts (.code [])
      [.slot (named "[ida-cli] dsc_add_dylib complete for: " module),.text ")\n".toList]).1).1=
        [] := by
    have hopen : ∀ f body ts,scan loader printed (.literal f body::ts)=
        scan loader (.given "print".toList f body) ts := fun _ _ _ => rfl
    simp only [readParts]
    rw [hend,hopen,List.append_nil,scan_given_other hprint]
    rfl
  have hscan : callArguments loader (render (dscAddDylibScript module))=
      [((named "" module).form,newlines (named "" module).inner)] := by
    rw [callArguments,ht,dscAddDylibScript]
    refine (congrArg Prod.fst (passes_between .dylibHead).scan_text).trans ?_
    refine scan_loadCall.trans (congrArg _ ?_)
    exact (congrArg Prod.fst (passes_between .dylibPasses).scan_text).trans hnil
  rw [loaded,hscan,List.map_singleton]
  dsimp only
  rw [value_named hm]

theorem like_loadCall (start name name' : String) :
    List.Forall₂ Part.Like (loadCall start name) (loadCall start name') :=
  .cons (.slot rfl) (.cons (.text _) (.cons (.slot rfl) (.cons (.text _) .nil)))

theorem like_dscLoadScript {module' : String} {frameworks' : List String}
    (h : frameworks'.length=frameworks.length) :
    List.Forall₂ Part.Like (dscLoadScript module' frameworks')
      (dscLoadScript module frameworks) := by
  have hf : List.Forall₂ Part.Like (frameworks'.flatMap frameworkParts)
      (frameworks.flatMap frameworkParts) := by
    induction frameworks generalizing frameworks' with
    | nil =>
      obtain rfl:=List.eq_nil_of_length_eq_zero h
      exact .nil
    | cons framework frameworks ih =>
      obtain ⟨framework',rest,rfl⟩:=List.exists_cons_of_length_eq_add_one h
      rw [List.flatMap_cons,List.flatMap_cons]
      exact List.rel_append (.cons (.text _) (like_loadCall ..)) (ih (Nat.succ.inj h))
  exact .cons (.text _) (List.rel_append (like_loadCall ..)
    (List.rel_append hf (.cons (.text _) .nil)))

theorem outline_eq {a b : List Part} (ha : Placed (.code []) a) (hb : Placed (.code []) b)
    (hga : ∀ s,.slot s∈a → s.Good) (hgb : ∀ s,.slot s∈b → s.Good)
    (h : List.Forall₂ Part.Like a b) : outline (render a)=outline (render b) := by
  obtain ⟨h1,h2⟩:=readParts_like h (.code [])
  rw [outline,outline,tokens_of_good ha hga,tokens_of_good hb hgb,h1,h2]

/-- Whatever the names are: each literal around a name is one literal of the
script and stands for its text, the loader is called with the module and then
with the frameworks in order, and the rest of the script depends on nothing but
the number of the frameworks. -/
theorem dsc_scripts_safe {module : String} {frameworks : List String} (hm : NulFree module)
    (hf : ∀ framework∈frameworks,NulFree framework) :
    Intact (dscLoadScript module frameworks) ∧ Intact (dscAddDylibScript module) ∧
      loaded (dscLoadScript module frameworks)=
        (module::frameworks).map (fun name => some name.toList) ∧
      loaded (dscAddDylibScript module)=[some module.toList] ∧
      ∀ module' frameworks',NulFree module' → (∀ framework∈frameworks',NulFree framework) →
        frameworks'.length=frameworks.length →
        outline (render (dscLoadScript module' frameworks'))=
          outline (render (dscLoadScript module frameworks)) ∧
        outline (render (dscAddDylibScript module'))=
          outline (render (dscAddDylibScript module)) := by
  have hl:=slots_dscLoadScript hm hf
  have hd:=slots_dscAddDylibScript hm
  have hpl:=placed_dscLoadScript module frameworks
  have hpd:=placed_dscAddDylibScript module
  refine ⟨(intact_iff _ hpl).mpr hl,(intact_iff _ hpd).mpr hd,loaded_dscLoadScript hm hf,
    loaded_dscAddDylibScript hm,?_⟩
  intro module' frameworks' hm' hf' hlen
  constructor
  · exact outline_eq (placed_dscLoadScript _ _) hpl (slots_dscLoadScript hm' hf') hl
      (like_dscLoadScript hlen)
  · exact outline_eq (placed_dscAddDylibScript _) hpd (slots_dscAddDylibScript hm') hd
      (.cons (.text _) (List.rel_append (like_loadCall ..)
        (.cons (.text _) (.cons (.slot rfl) (.cons (.text _) .nil)))))

/-- A name that tries to end its literal. -/
theorem dsc_scripts_safe_quote :
    loaded (dscLoadScript "a\");os.abort()#" ["\\"])=
      ["a\");os.abort()#","\\"].map (fun name => some name.toList) :=
  (dsc_scripts_safe (by decide) (by decide)).2.2.1

end Scripts
