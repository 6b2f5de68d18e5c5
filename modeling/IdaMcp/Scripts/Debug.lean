import IdaMcp.Scripts.Idat

/-!
# The scripts of the debug handlers

The generators of `src/src/ida/handlers/debug` that put a string of the request
into their script: `process.rs`, `inspect.rs` and `breakpoint.rs`. A string goes
between double quotes as it is, or with a backslash before each double quote;
the name of the debugger also goes into the text of an f-string.
-/

namespace Scripts
open Lib.Python (Form Slot Part)

inductive Fixed where
  | headlessPreamble | newline | dbgsrvHelpers | comma | loadRemoteAlready | loadRemoteServer
  | loadRemoteFallbacks | loadRemoteTry | loadRemoteFail | loadEnd | loadAlready | loadFallbacks
  | loadTry | loadLoaded | loadFail | startServer | startRemoteApp | startRemoteArgs
  | startRemoteDir | startRemoteSpawn | startRemoteEnd | startLocal | startWait | startEnd
  | attachRemotePid | attachRemoteServer | attachRemoteTry | attachRemoteEnd | attachPid
  | attachTry | attachEnd | registersState | registersEnd | namesEnd | setRegisterState
  | setRegisterName | setRegisterResult | setRegisterValue | setRegisterEnd | writeMemoryData
  | writeMemoryAddress | writeMemoryResult | writeMemoryEnd | conditionAddress | conditionText
  | conditionEnd | breakpointType | breakpointAddress | breakpointAdd | breakpointResult
  | breakpointEnd
  deriving Repr,DecidableEq

def Fixed.string : Fixed → String
  | .headlessPreamble =>
    "\nimport json, ida_dbg, ida_idd, idaapi\n\nDSTATE_SUSP = -1\nDSTATE_NOTASK = 0\n"++
    "DSTATE_RUN = 1\n\nWFNE_ANY = 1\nWFNE_SUSP = 2\nWFNE_SILENT = 4\nWFNE_CONT = 8\n"++
    "WFNE_NOWAIT = 16\nWFNE_USEC = 32\n\ndef safe_hex(v):\n    if v is None:\n"++
    "        return None\n    try:\n        if v == 0xFFFFFFFFFFFFFFFF:\n"++
    "            return None\n        return hex(v)\n    except Exception:\n        return None\n\n"++
    "def make_result(success, data=None, error=None):\n"++
    "    r = \x7b\"success\": success, \"error\": error, \"data\": data\x7d\n"++
    "    print(json.dumps(r))\n"
  | .newline => "\n"
  | .dbgsrvHelpers =>
    "\nimport subprocess as _sp, socket as _sock, time as _time\n\n"++
    "def _wait_port(port, timeout=3.0):\n"++
    "    \"\"\"Block until mac_server_arm is accepting TCP connections.\"\"\"\n"++
    "    _deadline = _time.monotonic() + timeout\n"++
    "    while _time.monotonic() < _deadline:\n        try:\n"++
    "            _cs = _sock.socket(_sock.AF_INET, _sock.SOCK_STREAM)\n"++
    "            _cs.settimeout(0.5)\n            _cs.connect(('127.0.0.1', port))\n"++
    "            _cs.close()\n            return True\n        except OSError:\n"++
    "            try:\n                _cs.close()\n            except Exception:\n"++
    "                pass\n            _time.sleep(0.1)\n    return False\n\n"++
    "def _ensure_dbgsrv(srv_path):\n    if hasattr(idaapi, '_mcp_dbgsrv'):\n"++
    "        _info = idaapi._mcp_dbgsrv\n        if _info['proc'].poll() is None:\n"++
    "            if _wait_port(_info['port'], timeout=1.0):\n"++
    "                return _info['port']\n"++
    "            # Server process alive but not listening — restart\n            try:\n"++
    "                _info['proc'].kill()\n            except Exception:\n                pass\n"++
    "    _s = _sock.socket(_sock.AF_INET, _sock.SOCK_STREAM)\n    _s.bind(('127.0.0.1', 0))\n"++
    "    _port = _s.getsockname()[1]\n    _s.close()\n"++
    "    _proc = _sp.Popen([srv_path, '-p', str(_port), '-t', "++
    "'--on-broken-connection-keep-session'],\n"++
    "                      stdout=_sp.DEVNULL, stderr=_sp.DEVNULL)\n"++
    "    if not _wait_port(_port, timeout=5.0):\n        rc = _proc.poll()\n"++
    "        if rc is not None:\n"++
    "            raise RuntimeError(f\"Debug server exited immediately (code=\x7brc\x7d)\")\n"++
    "        _proc.kill()\n"++
    "        raise RuntimeError(f\"Debug server not listening on port \x7b_port\x7d after 5s\")\n"++
    "    idaapi._mcp_dbgsrv = \x7b'proc': _proc, 'port': _port\x7d\n    return _port\n\n"++
    "def _kill_dbgsrv():\n    if not hasattr(idaapi, '_mcp_dbgsrv'):\n"++
    "        return False\n    try:\n        idaapi._mcp_dbgsrv['proc'].terminate()\n"++
    "        idaapi._mcp_dbgsrv['proc'].wait(timeout=3)\n    except Exception:\n"++
    "        try:\n            idaapi._mcp_dbgsrv['proc'].kill()\n"++
    "        except Exception:\n            pass\n    try:\n        del idaapi._mcp_dbgsrv\n"++
    "    except Exception:\n        pass\n    return True\n"
  | .comma => ", "
  | .loadRemoteAlready =>
    "\nif ida_dbg.dbg_is_loaded():\n"++
    "    make_result(True, \x7b\"already_loaded\": True, \"debugger\": "
  | .loadRemoteServer => "\x7d)\nelse:\n    _port = _ensure_dbgsrv("
  | .loadRemoteFallbacks => ")\n    import platform as _plat\n    _fallbacks = ["
  | .loadRemoteTry =>
    "]\n    if _plat.machine() == \"arm64\":\n        for _f in (\"arm_mac\",):\n"++
    "            if _f not in _fallbacks:\n                _fallbacks.append(_f)\n    else:\n"++
    "        for _f in (\"mac\",):\n            if _f not in _fallbacks:\n"++
    "                _fallbacks.append(_f)\n    ok = False\n    actual = None\n"++
    "    for _name in _fallbacks:\n        ok = ida_dbg.load_debugger(_name, True)\n"++
    "        if ok:\n            actual = _name\n            break\n    if ok:\n"++
    "        ida_dbg.set_remote_debugger(\"localhost\", \"\", _port)\n"++
    "        ida_dbg.set_debugger_options(0)\n"++
    "        make_result(True, \x7b\"loaded\": True, \"debugger\": actual, \"requested\": "
  | .loadRemoteFail =>
    ", \"remote\": True, \"port\": _port\x7d)\n    else:\n        _kill_dbgsrv()\n"++
    "        make_result(False, error=f"
  | .loadEnd => ")\n"
  | .loadAlready =>
    "\nimport platform as _plat\nif ida_dbg.dbg_is_loaded():\n"++
    "    make_result(True, \x7b\"already_loaded\": True, \"debugger\": "
  | .loadFallbacks => "\x7d)\nelse:\n    _fallbacks = ["
  | .loadTry =>
    "]\n    if _plat.system() == \"Darwin\" and _plat.machine() == \"arm64\":\n"++
    "        for _f in (\"arm_mac\", \"gdb\"):\n            if _f not in _fallbacks:\n"++
    "                _fallbacks.append(_f)\n    elif _plat.system() == \"Darwin\":\n"++
    "        for _f in (\"mac\", \"gdb\"):\n            if _f not in _fallbacks:\n"++
    "                _fallbacks.append(_f)\n    else:\n        if \"gdb\" not in _fallbacks:\n"++
    "            _fallbacks.append(\"gdb\")\n    ok = False\n    actual = None\n"++
    "    for _name in _fallbacks:\n        ok = ida_dbg.load_debugger(_name, "
  | .loadLoaded =>
    ")\n        if ok:\n            actual = _name\n            break\n    if ok:\n"++
    "        ida_dbg.set_debugger_options(0)\n"++
    "        make_result(True, \x7b\"loaded\": True, \"debugger\": actual, \"requested\": "
  | .loadFail => "\x7d)\n    else:\n        make_result(False, error=f"
  | .startServer => "\n_port = _ensure_dbgsrv("
  | .startRemoteApp =>
    ")\nif not ida_dbg.dbg_is_loaded():\n    import platform as _plat\n"++
    "    if _plat.machine() == \"arm64\":\n        _try_dbg = [\"arm_mac\"]\n    else:\n"++
    "        _try_dbg = [\"mac\"]\n    _loaded = False\n    for _d in _try_dbg:\n"++
    "        if ida_dbg.load_debugger(_d, True):\n            _loaded = True\n            break\n"++
    "    if not _loaded:\n        _kill_dbgsrv()\n"++
    "        make_result(False, error=\"Failed to load remote debugger\")\n        raise SystemExit\n"++
    "ida_dbg.set_remote_debugger(\"localhost\", \"\", _port)\n"++
    "# Workaround: macOS Sequoia blocks posix_spawn from mac_server_arm\n"++
    "# (Hex-Rays community #670). Launch target with POSIX_SPAWN_START_SUSPENDED\n"++
    "# via ctypes so process is frozen before first instruction, then attach.\n"++
    "import ctypes as _ct, ctypes.util as _ctu, shlex as _shlex, os as _os\n_app = "
  | .startRemoteArgs => " or \"\"\n_args_str = "
  | .startRemoteDir => " or \"\"\n_sdir = "
  | .startRemoteSpawn =>
    " or None\nif not _app:\n"++
    "    make_result(False, error=\"binary path is required for remote start_process\")\n"++
    "    raise SystemExit\n_libc = _ct.CDLL(_ctu.find_library('c'))\n"++
    "_POSIX_SPAWN_START_SUSPENDED = 0x0080\n_attr_p = _ct.c_void_p(0)\n"++
    "_libc.posix_spawnattr_init(_ct.byref(_attr_p))\n"++
    "_libc.posix_spawnattr_setflags(_ct.byref(_attr_p), "++
    "_ct.c_short(_POSIX_SPAWN_START_SUSPENDED))\n_pid_out = _ct.c_int(0)\n"++
    "_argv_parts = [_app] + (_shlex.split(_args_str) if _args_str else [])\n"++
    "_argv_c = (_ct.c_char_p * (len(_argv_parts) + 1))(*[s.encode() for s in _argv_parts], "++
    "None)\n_old_cwd = None\nif _sdir:\n    _old_cwd = _os.getcwd()\n    _os.chdir(_sdir)\n"++
    "_sret = _libc.posix_spawn(_ct.byref(_pid_out), _app.encode(), None, _ct.byref(_attr_p), "++
    "_argv_c, None)\nif _old_cwd:\n    _os.chdir(_old_cwd)\n"++
    "_libc.posix_spawnattr_destroy(_ct.byref(_attr_p))\nif _sret != 0:\n"++
    "    _kill_dbgsrv()\n"++
    "    make_result(False, error=f\"posix_spawn failed: \x7b_os.strerror(_sret)\x7d\")\n"++
    "    raise SystemExit\n_child_pid = _pid_out.value\nida_dbg.set_debugger_options(0)\n"++
    "state = ida_dbg.get_process_state()\nif state != 0:\n    _os.kill(_child_pid, 9)\n"++
    "    make_result(False, error=f\"Cannot attach: process state is \x7bstate\x7d, need "++
    "DSTATE_NOTASK(0)\")\nelse:\n    ret = -1\n    for _attempt in range(3):\n"++
    "        ret = ida_dbg.attach_process(_child_pid, -1)\n        if ret == 1:\n"++
    "            break\n        _time.sleep(0.5 * (_attempt + 1))\n    if ret == 1:\n"++
    "        code = ida_dbg.wait_for_next_event(WFNE_SUSP | WFNE_SILENT, "
  | .startRemoteEnd =>
    ")\n        ip = safe_hex(ida_dbg.get_ip_val())\n"++
    "        make_result(True, \x7b\"event_code\": code, \"ip\": ip, \"pid\": _child_pid, \"state\": "++
    "ida_dbg.get_process_state(), \"remote\": True, \"port\": _port\x7d)\n    else:\n"++
    "        _os.kill(_child_pid, 9)\n"++
    "        make_result(False, error=f\"attach_process returned \x7bret\x7d for pid "++
    "\x7b_child_pid\x7d after 3 attempts\")\n"
  | .startLocal =>
    "\nimport platform\nif not ida_dbg.dbg_is_loaded():\n    _sys = platform.system()\n"++
    "    _mach = platform.machine()\n    if _sys == \"Darwin\" and _mach == \"arm64\":\n"++
    "        _try = [\"arm_mac\", \"mac\", \"gdb\"]\n    elif _sys == \"Darwin\":\n"++
    "        _try = [\"mac\", \"arm_mac\", \"gdb\"]\n    elif _sys == \"Linux\":\n"++
    "        _try = [\"linux\", \"gdb\"]\n    elif _sys == \"Windows\":\n"++
    "        _try = [\"win32\", \"gdb\"]\n    else:\n        _try = [\"gdb\"]\n"++
    "    for _d in _try:\n        if ida_dbg.load_debugger(_d, False):\n            break\n"++
    "    ida_dbg.set_debugger_options(0)\nstate = ida_dbg.get_process_state()\n"++
    "if state != 0:\n"++
    "    make_result(False, error=f\"Cannot start: process state is \x7bstate\x7d, need "++
    "DSTATE_NOTASK(0)\")\nelse:\n    ret = ida_dbg.start_process("
  | .startWait =>
    ")\n    if ret == 1:\n        code = ida_dbg.wait_for_next_event(WFNE_SUSP | WFNE_SILENT, "
  | .startEnd =>
    ")\n        ip = safe_hex(ida_dbg.get_ip_val())\n"++
    "        make_result(True, \x7b\"event_code\": code, \"ip\": ip, \"state\": "++
    "ida_dbg.get_process_state()\x7d)\n    elif ret == 0:\n"++
    "        make_result(False, error=\"start_process cancelled\")\n    else:\n"++
    "        make_result(False, error=f\"start_process failed with code \x7bret\x7d\")\n"
  | .attachRemotePid => "\n_pid = "
  | .attachRemoteServer =>
    "\nif _pid is None:\n"++
    "    make_result(False, error=\"PID is required for attach in headless/remote mode\")\n"++
    "else:\n    _port = _ensure_dbgsrv("
  | .attachRemoteTry =>
    ")\n    if not ida_dbg.dbg_is_loaded():\n        import platform as _plat\n"++
    "        if _plat.machine() == \"arm64\":\n            _try_dbg = [\"arm_mac\"]\n"++
    "        else:\n            _try_dbg = [\"mac\"]\n        _loaded = False\n"++
    "        for _d in _try_dbg:\n            if ida_dbg.load_debugger(_d, True):\n"++
    "                _loaded = True\n                break\n        if not _loaded:\n"++
    "            _kill_dbgsrv()\n"++
    "            make_result(False, error=\"Failed to load remote debugger for attach\")\n"++
    "            raise SystemExit\n    ida_dbg.set_remote_debugger(\"localhost\", \"\", _port)\n"++
    "    state = ida_dbg.get_process_state()\n    if state != 0:\n"++
    "        make_result(False, error=f\"Cannot attach: state=\x7bstate\x7d, need "++
    "DSTATE_NOTASK(0)\")\n    else:\n        ret = -1\n"++
    "        for _attempt in range(3):\n"++
    "            ret = ida_dbg.attach_process(int(_pid), -1)\n            if ret == 1:\n"++
    "                break\n            _time.sleep(0.5 * (_attempt + 1))\n        if ret == 1:\n"++
    "            code = ida_dbg.wait_for_next_event(WFNE_SUSP | WFNE_SILENT, "
  | .attachRemoteEnd =>
    ")\n            ip = safe_hex(ida_dbg.get_ip_val())\n"++
    "            make_result(True, \x7b\"event_code\": code, \"ip\": ip, \"pid\": _pid, \"remote\": "++
    "True, \"port\": _port\x7d)\n        else:\n            import os as _os\n"++
    "            _alive = _os.path.exists(f\"/proc/\x7bint(_pid)\x7d\") if _os.name != \"nt\" else "++
    "True\n            try:\n                _os.kill(int(_pid), 0)\n"++
    "                _proc_exists = True\n            except (OSError, ProcessLookupError):\n"++
    "                _proc_exists = False\n"++
    "            _srv_alive = idaapi._mcp_dbgsrv['proc'].poll() is None if hasattr(idaapi, "++
    "'_mcp_dbgsrv') else False\n"++
    "            _srv_listen = _wait_port(_port, timeout=0.5) if _srv_alive else False\n"++
    "            make_result(False, error=f\"attach_process returned \x7bret\x7d after 3 attempts "++
    "(pid=\x7b_pid\x7d, pid_exists=\x7b_proc_exists\x7d, srv_alive=\x7b_srv_alive\x7d, "++
    "srv_listening=\x7b_srv_listen\x7d, port=\x7b_port\x7d)\")\n"
  | .attachPid => "\nimport platform\n_pid = "
  | .attachTry =>
    "\nif _pid is None:\n"++
    "    make_result(False, error=\"PID is required in headless mode (no process selection "++
    "dialog)\")\nelse:\n    if not ida_dbg.dbg_is_loaded():\n"++
    "        _sys = platform.system()\n        _mach = platform.machine()\n"++
    "        if _sys == \"Darwin\" and _mach == \"arm64\":\n"++
    "            _try = [\"arm_mac\", \"mac\", \"gdb\"]\n        elif _sys == \"Darwin\":\n"++
    "            _try = [\"mac\", \"arm_mac\", \"gdb\"]\n        elif _sys == \"Linux\":\n"++
    "            _try = [\"linux\", \"gdb\"]\n        elif _sys == \"Windows\":\n"++
    "            _try = [\"win32\", \"gdb\"]\n        else:\n            _try = [\"gdb\"]\n"++
    "        for _d in _try:\n            if ida_dbg.load_debugger(_d, False):\n"++
    "                break\n        ida_dbg.set_debugger_options(0)\n"++
    "    state = ida_dbg.get_process_state()\n    if state != 0:\n"++
    "        make_result(False, error=f\"Cannot attach: state=\x7bstate\x7d, need "++
    "DSTATE_NOTASK(0)\")\n    else:\n"++
    "        ret = ida_dbg.attach_process(int(_pid), -1)\n        if ret == 1:\n"++
    "            code = ida_dbg.wait_for_next_event(WFNE_SUSP | WFNE_SILENT, "
  | .attachEnd =>
    ")\n            ip = safe_hex(ida_dbg.get_ip_val())\n"++
    "            make_result(True, \x7b\"event_code\": code, \"ip\": ip, \"pid\": _pid\x7d)\n"++
    "        else:\n            make_result(False, error=f\"attach_process returned \x7bret\x7d\")\n"
  | .registersState =>
    "\nstate = ida_dbg.get_process_state()\nif state != -1:\n"++
    "    make_result(False, error=f\"Cannot read registers: state=\x7bstate\x7d, need "++
    "DSTATE_SUSP(-1)\")\nelse:\n    regs = \x7b\x7d\n    "
  | .registersEnd =>
    "\n    for name in names:\n        rv = ida_idd.regval_t()\n"++
    "        if ida_dbg.get_reg_val(name, rv):\n            regs[name] = safe_hex(rv.ival)\n"++
    "    ip = safe_hex(ida_dbg.get_ip_val())\n    sp = safe_hex(ida_dbg.get_sp_val())\n"++
    "    make_result(True, \x7b\"registers\": regs, \"ip\": ip, \"sp\": sp\x7d)\n"
  | .namesEnd => "]"
  | .setRegisterState =>
    "\nstate = ida_dbg.get_process_state()\nif state != -1:\n"++
    "    make_result(False, error=f\"Cannot set register: state=\x7bstate\x7d, need "++
    "DSTATE_SUSP(-1)\")\nelse:\n    rv = ida_idd.regval_t()\n    rv.ival = "
  | .setRegisterName => "\n    ok = ida_dbg.set_reg_val("
  | .setRegisterResult => ", rv)\n    make_result(ok, \x7b\"register\": "
  | .setRegisterValue => ", \"value\": safe_hex("
  | .setRegisterEnd => "), \"set_ok\": ok\x7d)\n"
  | .writeMemoryData =>
    "\nstate = ida_dbg.get_process_state()\nif state != -1:\n"++
    "    make_result(False, error=f\"Cannot write memory: state=\x7bstate\x7d, need "++
    "DSTATE_SUSP(-1)\")\nelse:\n    import idc as _idc\n    data_bytes = bytes.fromhex("
  | .writeMemoryAddress => ")\n    ok = _idc.write_dbg_memory("
  | .writeMemoryResult => ", data_bytes)\n    make_result(bool(ok), \x7b\"address\": safe_hex("
  | .writeMemoryEnd =>
    "), \"bytes_written\": len(data_bytes) if ok else 0, \"ok\": bool(ok)\x7d)\n"
  | .conditionAddress => "\nif ok:\n    bpt = ida_dbg.bpt_t()\n    if ida_dbg.get_bpt("
  | .conditionText => ", bpt):\n        bpt.condition = "
  | .conditionEnd => "\n        ida_dbg.update_bpt(bpt)\n"
  | .breakpointType =>
    "\n"++
    "bpt_types = \x7b\"soft\": 4, \"exec\": 8, \"write\": 1, \"read\": 2, \"rdwr\": 3, "++
    "\"default\": 12\x7d\nbtype = bpt_types.get("
  | .breakpointAddress => ", 12)\nok = ida_dbg.add_bpt("
  | .breakpointAdd => ", btype)\n"
  | .breakpointResult => "\nmake_result(ok, \x7b\"address\": safe_hex("
  | .breakpointEnd => "), \"added\": ok, \"type\": btype\x7d)\n"

/-- The code that takes every register the processor has. -/
def allRegisterNames : String :=
  "import ida_idp\n_raw = list(ida_idp.ph_get_regnames())\nnames = []\n_seen = set()\n"++
  "for _n in _raw:\n    rv = ida_idd.regval_t()\n"++
  "    if ida_dbg.get_reg_val(_n, rv) and _n not in _seen:\n        names.append(_n)\n"++
  "        _seen.add(_n)"

def Fixed.part (t : Fixed) : Part := .text t.string.toList

/-- The word that the text ends with. -/
def Fixed.word : Fixed → List Char
  | .loadRemoteFail => ['f']
  | .loadFail => ['f']
  | _ => []

def stringForm : Form := .ofWord [] '"'

/-- A string between double quotes, as it is. -/
def bare (s : String) : Slot :=
  { form := stringForm
    inner := s.toList
    Means := fun body => stringForm.value? body=some s.toList }

/-- A string between double quotes, with its double quotes escaped. -/
def quoteEscaped (s : String) : Slot :=
  { form := stringForm
    inner := replaceChar '"' ['\\','"'] s.toList
    Means := fun body => stringForm.value? body=some s.toList }

/-- Hexadecimal data, with its blanks removed. -/
def cleanHex (s : String) : Slot :=
  { form := stringForm
    inner := replaceChar ' ' [] s.toList
    Means := fun body => stringForm.value? body=some s.toList }

def messageEnd : String := "' (tried: "
def messageField : String := "', '.join(_fallbacks)"

/-- The f-string that reports that no debugger could be loaded: the name is text
in it, and the list of the names tried is its one field. -/
def failMessage (start name : String) : Slot :=
  { form := .ofWord ['f'] '"'
    inner := start.toList++name.toList++messageEnd.toList++
      '\x7b'::(messageField.toList++['\x7d',')'])
    Means := fun body => Lib.Python.formatted? body=
      some [.text (start.toList++name.toList++messageEnd.toList),.field messageField.toList,
        .text [')']] }

def optional : Option String → Part
  | some s => .slot (quoteEscaped s)
  | none => .text "None".toList

def number (n : Nat) : Part := .text (Nat.toDigits 10 n)

def optionalNumber : Option Nat → Part
  | some n => number n
  | none => .text "None".toList

def buildScript (body : List Part) : List Part :=
  Fixed.headlessPreamble.part::Fixed.newline.part::body

def generateLoadDebuggerScript (debuggerName : String) (isRemote : Bool)
    (debugServerPath : Option String) : List Part :=
  match debugServerPath with
  | some srvPath => buildScript
    [Fixed.newline.part,Fixed.dbgsrvHelpers.part,Fixed.loadRemoteAlready.part,
      .slot (bare debuggerName),Fixed.loadRemoteServer.part,.slot (quoteEscaped srvPath),
      Fixed.loadRemoteFallbacks.part,.slot (bare debuggerName),Fixed.loadRemoteTry.part,
      .slot (bare debuggerName),Fixed.loadRemoteFail.part,
      .slot (failMessage "Failed to load remote debugger '" debuggerName),Fixed.loadEnd.part]
  | none => buildScript
    [Fixed.loadAlready.part,.slot (bare debuggerName),Fixed.loadFallbacks.part,
      .slot (bare debuggerName),Fixed.loadTry.part,
      .text (if isRemote then "True" else "False").toList,Fixed.loadLoaded.part,
      .slot (bare debuggerName),Fixed.loadFail.part,
      .slot (failMessage "Failed to load debugger '" debuggerName),Fixed.loadEnd.part]

def generateStartProcessScript (path args startDir : Option String) (timeout : Nat)
    (debugServerPath : Option String) : List Part :=
  match debugServerPath with
  | some srvPath => buildScript
    [Fixed.newline.part,Fixed.dbgsrvHelpers.part,Fixed.startServer.part,
      .slot (quoteEscaped srvPath),Fixed.startRemoteApp.part,optional path,
      Fixed.startRemoteArgs.part,optional args,Fixed.startRemoteDir.part,optional startDir,
      Fixed.startRemoteSpawn.part,number timeout,Fixed.startRemoteEnd.part]
  | none => buildScript
    [Fixed.startLocal.part,optional path,Fixed.comma.part,optional args,Fixed.comma.part,
      optional startDir,Fixed.startWait.part,number timeout,Fixed.startEnd.part]

def generateAttachProcessScript (pid : Option Nat) (timeout : Nat)
    (debugServerPath : Option String) : List Part :=
  match debugServerPath with
  | some srvPath => buildScript
    [Fixed.newline.part,Fixed.dbgsrvHelpers.part,Fixed.attachRemotePid.part,optionalNumber pid,
      Fixed.attachRemoteServer.part,.slot (quoteEscaped srvPath),Fixed.attachRemoteTry.part,
      number timeout,Fixed.attachRemoteEnd.part]
  | none => buildScript
    [Fixed.attachPid.part,optionalNumber pid,Fixed.attachTry.part,number timeout,
      Fixed.attachEnd.part]

/-- The names between commas. -/
def registerNames : List String → List Part
  | [] => []
  | [n] => [.slot (bare n)]
  | n::m::ns => .slot (bare n)::Fixed.comma.part::registerNames (m::ns)

def filterCode : Option (List String) → List Part
  | some (n::ns) => .text "names = [".toList::(registerNames (n::ns)++[Fixed.namesEnd.part])
  | _ => [.text allRegisterNames.toList]

def generateGetRegistersScript (names : Option (List String)) : List Part :=
  buildScript (Fixed.registersState.part::(filterCode names++[Fixed.registersEnd.part]))

def generateSetRegisterScript (registerName : String) (value : Nat) : List Part :=
  buildScript
    [Fixed.setRegisterState.part,number value,Fixed.setRegisterName.part,
      .slot (bare registerName),Fixed.setRegisterResult.part,.slot (bare registerName),
      Fixed.setRegisterValue.part,number value,Fixed.setRegisterEnd.part]

def generateWriteMemoryScript (address : Nat) (dataHex : String) : List Part :=
  buildScript
    [Fixed.writeMemoryData.part,.slot (cleanHex dataHex),Fixed.writeMemoryAddress.part,
      number address,Fixed.writeMemoryResult.part,number address,Fixed.writeMemoryEnd.part]

def conditionBlock (address : Nat) : Option String → List Part
  | some cond =>
    [Fixed.conditionAddress.part,number address,Fixed.conditionText.part,
      .slot (quoteEscaped cond),Fixed.conditionEnd.part]
  | none => []

def generateAddBreakpointScript (address size : Nat) (bptType : String)
    (condition : Option String) : List Part :=
  buildScript
    ([Fixed.breakpointType.part,.slot (bare bptType),Fixed.breakpointAddress.part,number address,
      Fixed.comma.part,number size,Fixed.breakpointAdd.part]++
      (conditionBlock address condition++
        [Fixed.breakpointResult.part,number address,Fixed.breakpointEnd.part]))

end Scripts
