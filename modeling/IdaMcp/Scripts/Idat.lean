import IdaMcp.Lib.Python.Loads
import IdaMcp.Lib.Python.Script

/-!
# The scripts of the idat compatibility worker

The Python scripts of `src/src/idat_compat.rs`: a prelude with two paths, one
line for each parameter of the request, and a fixed text that uses them. The
fixed text of a generator is an input here (`trailer`); nothing below depends
on what it says.
-/

namespace Scripts
open Lib (Json)
open Lib.Python (Form Slot Part)

/-- Models `str::replace` of one character. -/
def replaceChar (c : Char) (by_ text : List Char) : List Char :=
  text.flatMap fun d => if d=c then by_ else [d]

def escapePythonString (input : String) : List Char :=
  replaceChar '\r' ['\\','r'] (replaceChar '\n' ['\\','n']
    (replaceChar '"' ['\\','"'] (replaceChar '\\' ['\\','\\'] input.toList)))

/-- Models `str::replace("\x27\x27\x27", ..)`: three quotes in a row get a backslash each. -/
def guardQuotes : List Char → List Char
  | '\'' :: '\'' :: '\''::cs => ['\\','\'','\\','\'','\\','\'']++guardQuotes cs
  | c::cs => c::guardQuotes cs
  | [] => []

/-- A function name, filter, query or pattern between single quotes. -/
def quoted (s : String) : Slot :=
  { form := .ofWord [] '\''
    inner := escapePythonString s
    Means := fun body => (Form.ofWord [] '\'').value? body=some s.toList }

/-- A path of the prelude, in a raw literal. -/
def rawPath (path : String) : Slot :=
  { form := .ofWord ['r'] '"'
    inner := escapePythonString path
    Means := fun body => (Form.ofWord ['r'] '"').value? body=some path.toList }

/-- A path that the worker makes up itself; nothing is asked of its value. -/
def ownPath (path : String) : Slot := { rawPath path with Means := fun _ => True }

/-- The addresses of a batch, as JSON between three single quotes. -/
def addressList (addrs : List Json) : Slot :=
  { form := (Form.ofWord [] '\'').long
    inner := guardQuotes (Json.arr addrs).print
    Means := fun body =>
      ((Form.ofWord [] '\'').long.value? body).bind Lib.Python.loads=some (.arr addrs) }

inductive Name where
  | offset | limit | filter | query | addr | name | count | size | mode | exact
  | caseInsensitive | maxXrefs | maxLen | maxResults | pattern | endAddr | addrs | addr1 | addr2
  | targetEa
  deriving Repr,DecidableEq

def Name.text : Name → String
  | .offset => "OFFSET"
  | .limit => "LIMIT"
  | .filter => "FILTER"
  | .query => "QUERY"
  | .addr => "ADDR"
  | .name => "NAME"
  | .count => "COUNT"
  | .size => "SIZE"
  | .mode => "MODE"
  | .exact => "EXACT"
  | .caseInsensitive => "CASE_INSENSITIVE"
  | .maxXrefs => "MAX_XREFS"
  | .maxLen => "MAX_LEN"
  | .maxResults => "MAX_RESULTS"
  | .pattern => "PATTERN"
  | .endAddr => "END_ADDR"
  | .addrs => "ADDRS"
  | .addr1 => "ADDR1"
  | .addr2 => "ADDR2"
  | .targetEa => "TARGET_EA"

inductive Value where
  | number : Nat → Value
  | none
  | bool : Bool → Value
  /-- The direction of the cross references. -/
  | direction : (toAddr : Bool) → Value
  | string : String → Value
  | addresses : List Json → Value

def Value.ofString? : Option String → Value
  | some s => .string s
  | Option.none => .none

def Value.ofNumber? : Option Nat → Value
  | some n => .number n
  | Option.none => .none

structure Line where
  name : Name
  value : Value

def Value.parts : Value → List Part
  | .number n => [.text (Nat.toDigits 10 n)]
  | .none => [.text "None".toList]
  | .bool true => [.text "True".toList]
  | .bool false => [.text "False".toList]
  | .direction true => [.text "'to'".toList]
  | .direction false => [.text "'from'".toList]
  | .string s => [.slot (quoted s)]
  | .addresses vs => [.text "json.loads(".toList,.slot (addressList vs),.text ")".toList]

def Line.parts (l : Line) : List Part :=
  .text (l.name.text++" = ").toList::(l.value.parts++[.text "\n".toList])

def preludeHead : String :=
  "\nimport json\nimport ida_auto\nimport ida_funcs\nimport ida_ida\nimport ida_pro\n\n"++
  "OUT_PATH = r"

def preludeTail : String :=
  "\n\ndef collect_db_info():\n"++
  "    bits = 64 if ida_ida.inf_is_64bit() else (32 if ida_ida.inf_is_32bit_exactly() else 16)\n"++
  "    return \x7b\n        \"path\": DB_PATH,\n        \"file_type\": \"idat-compat\",\n"++
  "        \"processor\": \"metapc\",\n        \"bits\": bits,\n"++
  "        \"function_count\": int(ida_funcs.get_func_qty()),\n        \"debug_info\": None,\n"++
  "        \"analysis_status\": \x7b\n            \"auto_enabled\": True,\n"++
  "            \"auto_is_ok\": True,\n            \"auto_state\": \"AU_NONE\",\n"++
  "            \"auto_state_id\": 0,\n            \"analysis_running\": False\n        \x7d\n    \x7d\n\n"++
  "def write_result(value):\n"++
  "    with open(OUT_PATH, \"w\", encoding=\"utf-8\") as f:\n        json.dump(value, f)\n\n"++
  "def exit_ok():\n    ida_pro.qexit(0)\n\nida_auto.auto_wait()\n"

def pythonPrelude (output database : String) : List Part :=
  [.text preludeHead.toList,.slot (ownPath output),.text "\nDB_PATH = r".toList,
    .slot (rawPath database),.text preludeTail.toList]

inductive Call where
  | createOrOpenDatabase
  | inspectDatabase
  | listFunctions (offset limit : Nat) (filter : Option String)
  | resolveFunction (query : String)
  | functionAt (addr : Option Nat) (name : Option String) (offset : Nat)
  | disasm (addr count : Nat)
  | disasmByName (name : String) (count : Nat)
  | disasmFunctionAt (addr : Option Nat) (name : Option String) (offset count : Nat)
  | segments
  | strings (offset limit : Nat) (query : Option String)
  | getBytes (addr size : Nat)
  | addrInfo (addr : Option Nat) (name : Option String) (offset : Nat)
  | xrefs (addr : Nat) (toAddr : Bool)
  | xrefsToString (query : String) (exact caseInsensitive : Bool) (offset limit maxXrefs : Nat)
  | callers (addr : Nat)
  | callees (addr : Nat)
  | imports (offset limit : Nat)
  | exports (offset limit : Nat)
  | entrypoints
  | databaseInfo
  | globals (query : Option String) (offset limit : Nat)
  | readString (addr maxLen : Nat)
  | readInt (addr size : Nat)
  | searchText (text : String) (maxResults : Nat)
  | searchBytes (pattern : String) (maxResults : Nat)
  /-- The client's code is in a file of its own; the script only has its path. -/
  | runScript (userCodePath : String)
  | pseudocodeAt (addr : Nat) (endAddr : Option Nat)
  | batchDecompile (addrs : List Json)
  | searchPseudocode (pattern : String) (limit : Nat)
  | diffPseudocode (addr1 addr2 : Nat)
  | decompile (address : Nat)

def Call.lines : Call → List Line
  | .listFunctions offset limit filter =>
    [⟨.offset,.number offset⟩,⟨.limit,.number limit⟩,⟨.filter,.ofString? filter⟩]
  | .resolveFunction query => [⟨.query,.string query⟩]
  | .functionAt addr name offset =>
    [⟨.addr,.ofNumber? addr⟩,⟨.name,.ofString? name⟩,⟨.offset,.number offset⟩]
  | .disasm addr count => [⟨.addr,.number addr⟩,⟨.count,.number count⟩]
  | .disasmByName name count => [⟨.name,.string name⟩,⟨.count,.number count⟩]
  | .disasmFunctionAt addr name offset count =>
    [⟨.addr,.ofNumber? addr⟩,⟨.name,.ofString? name⟩,⟨.offset,.number offset⟩,
      ⟨.count,.number count⟩]
  | .strings offset limit query =>
    [⟨.offset,.number offset⟩,⟨.limit,.number limit⟩,⟨.query,.ofString? query⟩]
  | .getBytes addr size => [⟨.addr,.number addr⟩,⟨.size,.number size⟩]
  | .addrInfo addr name offset =>
    [⟨.addr,.ofNumber? addr⟩,⟨.name,.ofString? name⟩,⟨.offset,.number offset⟩]
  | .xrefs addr toAddr => [⟨.addr,.number addr⟩,⟨.mode,.direction toAddr⟩]
  | .xrefsToString query exact caseInsensitive offset limit maxXrefs =>
    [⟨.query,.string query⟩,⟨.exact,.bool exact⟩,⟨.caseInsensitive,.bool caseInsensitive⟩,
      ⟨.offset,.number offset⟩,⟨.limit,.number limit⟩,
      ⟨.maxXrefs,.number (max 1 (min maxXrefs 1024))⟩]
  | .callers addr => [⟨.addr,.number addr⟩]
  | .callees addr => [⟨.addr,.number addr⟩]
  | .imports offset limit => [⟨.offset,.number offset⟩,⟨.limit,.number limit⟩]
  | .exports offset limit => [⟨.offset,.number offset⟩,⟨.limit,.number limit⟩]
  | .globals query offset limit =>
    [⟨.query,.ofString? query⟩,⟨.offset,.number offset⟩,⟨.limit,.number limit⟩]
  | .readString addr maxLen => [⟨.addr,.number addr⟩,⟨.maxLen,.number maxLen⟩]
  | .readInt addr size => [⟨.addr,.number addr⟩,⟨.size,.number size⟩]
  | .searchText text maxResults => [⟨.query,.string text⟩,⟨.maxResults,.number maxResults⟩]
  | .searchBytes pattern maxResults =>
    [⟨.pattern,.string pattern⟩,⟨.maxResults,.number maxResults⟩]
  | .pseudocodeAt addr endAddr => [⟨.addr,.number addr⟩,⟨.endAddr,.ofNumber? endAddr⟩]
  | .batchDecompile addrs => [⟨.addrs,.addresses addrs⟩]
  | .searchPseudocode pattern limit => [⟨.pattern,.string pattern⟩,⟨.limit,.number limit⟩]
  | .diffPseudocode addr1 addr2 => [⟨.addr1,.number addr1⟩,⟨.addr2,.number addr2⟩]
  | .decompile address => [⟨.targetEa,.number address⟩]
  | _ => []

/-- The line of `run_script_with_idat`, whose literal is a raw one. -/
def Call.userCode : Call → List Char
  | .runScript path => "USER_CODE = r'".toList++escapePythonString path++"'\n".toList
  | _ => []

/-- The script of a call, with the worker's output path and the path of the
database that is open. -/
def Call.script (call : Call) (output database trailer : String) : List Part :=
  pythonPrelude output database++.text "\n".toList::
    (call.lines.flatMap Line.parts++[.text (call.userCode++trailer.toList)])

end Scripts
