import Mathlib.Data.List.Basic

/-!
# Names of the tools (`src/src/tool_registry.rs`)

A request may name a tool by its own name or by an older one. What the tools
are described with is not used by any request and is left out.
-/

namespace Tools

structure ToolInfo where
  name : String
  aliases : List String

def TOOL_REGISTRY : List ToolInfo :=
  [⟨"open_idb",[]⟩,⟨"open_dsc",[]⟩,⟨"dsc_add_dylib",[]⟩,⟨"dsc_add_region",[]⟩,
   ⟨"load_debug_info",[]⟩,⟨"get_analysis_status",["analysis_status"]⟩,⟨"close_idb",[]⟩,
   ⟨"tool_catalog",[]⟩,⟨"tool_help",[]⟩,⟨"get_task_status",["task_status"]⟩,
   ⟨"get_database_info",["idb_meta"]⟩,⟨"list_functions",["list_funcs"]⟩,
   ⟨"get_function_by_name",["resolve_function"]⟩,⟨"get_function_prototype",[]⟩,
   ⟨"get_function_at_address",["function_at"]⟩,⟨"batch_lookup_functions",["lookup_funcs"]⟩,
   ⟨"run_auto_analysis",["analyze_funcs"]⟩,⟨"disassemble",["disasm"]⟩,
   ⟨"disassemble_function",["disasm_by_name"]⟩,⟨"disassemble_function_at",["disasm_function_at"]⟩,
   ⟨"decompile_function",["decompile"]⟩,⟨"get_pseudocode_at",["pseudocode_at"]⟩,
   ⟨"decompile_structured",[]⟩,⟨"batch_decompile",[]⟩,⟨"search_pseudocode",[]⟩,
   ⟨"scan_memory_table",["table_scan"]⟩,⟨"diff_pseudocode",["diff_functions"]⟩,
   ⟨"get_xrefs_to",["xrefs_to"]⟩,⟨"get_xrefs_from",["xrefs_from"]⟩,
   ⟨"get_xrefs_to_string",["xrefs_to_string"]⟩,⟨"build_xref_matrix",["xref_matrix"]⟩,
   ⟨"get_basic_blocks",["basic_blocks"]⟩,⟨"get_callers",["callers"]⟩,⟨"get_callees",["callees"]⟩,
   ⟨"build_callgraph",["callgraph"]⟩,⟨"find_control_flow_paths",["find_paths"]⟩,
   ⟨"read_bytes",["get_bytes"]⟩,⟨"read_string",["get_string"]⟩,⟨"read_byte",["get_u8"]⟩,
   ⟨"read_word",["get_u16"]⟩,⟨"read_dword",["get_u32"]⟩,⟨"read_qword",["get_u64"]⟩,
   ⟨"read_global_variable",["get_global_value"]⟩,⟨"convert_number",["int_convert"]⟩,
   ⟨"search_bytes",["find_bytes"]⟩,⟨"search_text",["search"]⟩,
   ⟨"list_strings",["strings","find_string","analyze_strings"]⟩,
   ⟨"search_instructions",["find_insns"]⟩,⟨"search_instruction_operands",["find_insn_operands"]⟩,
   ⟨"list_segments",["segments"]⟩,⟨"get_address_info",["addr_info"]⟩,⟨"list_imports",["imports"]⟩,
   ⟨"list_exports",["exports"]⟩,⟨"export_functions",["export_funcs"]⟩,
   ⟨"list_entry_points",["entrypoints"]⟩,⟨"list_globals",[]⟩,⟨"list_local_types",["local_types"]⟩,
   ⟨"get_xrefs_to_struct_field",["xrefs_to_field"]⟩,⟨"declare_c_type",["declare_type"]⟩,
   ⟨"apply_type",["apply_types"]⟩,⟨"infer_type",["infer_types"]⟩,
   ⟨"get_stack_frame",["stack_frame"]⟩,⟨"create_stack_variable",["declare_stack"]⟩,
   ⟨"delete_stack_variable",["delete_stack"]⟩,⟨"list_enums",[]⟩,⟨"create_enum",[]⟩,
   ⟨"list_structs",["structs"]⟩,⟨"get_struct_info",["struct_info"]⟩,
   ⟨"read_struct_at_address",["read_struct"]⟩,⟨"search_structs",[]⟩,
   ⟨"set_comment",["set_comments"]⟩,⟨"set_function_comment",[]⟩,⟨"patch_assembly",["patch_asm"]⟩,
   ⟨"patch_bytes",["patch"]⟩,⟨"rename_symbol",["rename"]⟩,⟨"batch_rename",[]⟩,
   ⟨"set_function_prototype",[]⟩,⟨"rename_local_variable",["rename_lvar"]⟩,
   ⟨"set_local_variable_type",["set_lvar_type"]⟩,⟨"rename_stack_variable",[]⟩,
   ⟨"set_stack_variable_type",[]⟩,⟨"set_decompiler_comment",[]⟩,⟨"run_script",[]⟩,
   ⟨"dbg_load_debugger",[]⟩,⟨"dbg_start_process",[]⟩,⟨"dbg_attach_process",[]⟩,
   ⟨"dbg_detach_process",[]⟩,⟨"dbg_exit_process",[]⟩,⟨"dbg_get_state",[]⟩,
   ⟨"dbg_add_breakpoint",[]⟩,⟨"dbg_del_breakpoint",[]⟩,⟨"dbg_enable_breakpoint",[]⟩,
   ⟨"dbg_list_breakpoints",[]⟩,⟨"dbg_continue",[]⟩,⟨"dbg_step_into",[]⟩,⟨"dbg_step_over",[]⟩,
   ⟨"dbg_step_until_ret",[]⟩,⟨"dbg_run_to",[]⟩,⟨"dbg_get_registers",[]⟩,⟨"dbg_set_register",[]⟩,
   ⟨"dbg_read_memory",[]⟩,⟨"dbg_write_memory",[]⟩,⟨"dbg_get_memory_info",[]⟩,
   ⟨"dbg_list_threads",[]⟩,⟨"dbg_select_thread",[]⟩,⟨"dbg_wait_event",[]⟩]

/-- Lines 1540-1544. -/
def getToolByAlias (name : String) : Option ToolInfo :=
  TOOL_REGISTRY.find? fun t => t.name=name || t.aliases.contains name

/-- Lines 1552-1557. -/
def primaryNameFor (name : String) : String :=
  match getToolByAlias name with
  | some tool => tool.name
  | none => name

theorem eq_of_primaryNameFor {name primary : String} (h : primaryNameFor name=primary)
    (hp : ∀ tool∈TOOL_REGISTRY,tool.name≠primary) : name=primary := by
  unfold primaryNameFor at h
  split at h
  case h_1 tool ht => exact absurd h (hp tool (List.mem_of_find?_eq_some ht))
  case h_2 => exact h

end Tools
