import ProbeWeaver.Tree.Kind

/-!
# Query/Grammar — the vocabulary of the C grammar

The constructs, fields and tokens that a query may name, and what is known of the parts of a
construct.
-/

namespace ProbeWeaver.Grammar

/-- Names of the constructs. -/
def constructs : List String :=
  ["ERROR", "abstract_array_declarator", "abstract_function_declarator",
    "abstract_parenthesized_declarator", "abstract_pointer_declarator", "alignas_qualifier",
    "alignof_expression", "argument_list", "array_declarator", "assignment_expression",
    "attribute", "attribute_declaration", "attribute_specifier", "attributed_declarator",
    "attributed_statement", "binary_expression", "bitfield_clause", "break_statement",
    "call_expression", "case_statement", "cast_expression", "char_literal", "character",
    "comma_expression", "comment", "compound_literal_expression", "compound_statement",
    "concatenated_string", "conditional_expression", "continue_statement", "declaration",
    "declaration_list", "do_statement", "else_clause", "enum_specifier", "enumerator",
    "enumerator_list", "escape_sequence", "expression_statement", "extension_expression",
    "false", "field_declaration", "field_declaration_list", "field_designator",
    "field_expression", "field_identifier", "for_statement", "function_declarator",
    "function_definition", "generic_expression", "gnu_asm_clobber_list", "gnu_asm_expression",
    "gnu_asm_goto_list", "gnu_asm_input_operand", "gnu_asm_input_operand_list",
    "gnu_asm_output_operand", "gnu_asm_output_operand_list", "gnu_asm_qualifier",
    "goto_statement", "identifier", "if_statement", "init_declarator", "initializer_list",
    "initializer_pair", "labeled_statement", "linkage_specification", "macro_type_specifier",
    "ms_based_modifier", "ms_call_modifier", "ms_declspec_modifier", "ms_pointer_modifier",
    "ms_restrict_modifier", "ms_signed_ptr_modifier", "ms_unaligned_ptr_modifier",
    "ms_unsigned_ptr_modifier", "null", "number_literal", "offsetof_expression",
    "parameter_declaration", "parameter_list", "parenthesized_declarator",
    "parenthesized_expression", "pointer_declarator", "pointer_expression", "preproc_arg",
    "preproc_call", "preproc_def", "preproc_defined", "preproc_directive", "preproc_elif",
    "preproc_elifdef", "preproc_else", "preproc_function_def", "preproc_if", "preproc_ifdef",
    "preproc_include", "preproc_params", "primitive_type", "return_statement",
    "seh_except_clause", "seh_finally_clause", "seh_leave_statement", "seh_try_statement",
    "sized_type_specifier", "sizeof_expression", "statement_identifier",
    "storage_class_specifier", "string_content", "string_literal", "struct_specifier",
    "subscript_designator", "subscript_expression", "subscript_range_designator",
    "switch_statement", "system_lib_string", "translation_unit", "true", "type_definition",
    "type_descriptor", "type_identifier", "type_qualifier", "unary_expression",
    "union_specifier", "update_expression", "variadic_parameter", "while_statement"]

/-- Names of the fields. -/
def fields : List String :=
  ["alternative", "argument", "arguments", "assembly_code", "body", "clobbers", "condition",
    "consequence", "constraint", "declarator", "designator", "directive", "end", "field",
    "filter", "function", "goto_labels", "index", "initializer", "input_operands", "label",
    "left", "member", "name", "operand", "operator", "output_operands", "parameters", "path",
    "prefix", "register", "right", "size", "start", "symbol", "type", "underlying_type",
    "update", "value"]

/-- Spellings of the tokens. -/
def tokens : List String :=
  ["\n", "!", "!=", "\"", "\"\"", "#define", "#elif", "#elifdef", "#elifndef", "#else", "#endif",
    "#if", "#ifdef", "#ifndef", "#include", "%", "%=", "&", "&&", "&=", "'", "(", ")", "*", "*=",
    "+", "++", "+=", ",", "-", "--", "-=", "->", ".", "...", "/", "/=", ":", "::", ";", "<", "<<",
    "<<=", "<=", "=", "==", ">", ">=", ">>", ">>=", "?", "L\"", "L'", "NULL", "U\"", "U'", "[",
    "[[", "]", "]]", "^", "^=", "_Alignas", "_Alignof", "_Atomic", "_Generic", "_Nonnull",
    "_Noreturn", "__alignof", "__alignof__", "__asm", "__asm__", "__attribute", "__attribute__",
    "__based", "__cdecl", "__clrcall", "__declspec", "__except", "__extension__", "__fastcall",
    "__finally", "__forceinline", "__inline", "__inline__", "__leave", "__restrict__", "__stdcall",
    "__thiscall", "__thread", "__try", "__unaligned", "__vectorcall", "__volatile__", "_alignof",
    "_unaligned", "alignas", "alignof", "asm", "auto", "break", "case", "const", "constexpr",
    "continue", "default", "defined", "do", "else", "enum", "extern", "for", "goto", "if",
    "inline", "long", "noreturn", "nullptr", "offsetof", "register", "restrict", "return",
    "short", "signed", "sizeof", "static", "struct", "switch", "thread_local", "typedef", "u\"",
    "u'", "u8\"", "u8'", "union", "unsigned", "volatile", "while", "\x7b", "|", "|=", "||",
    "\x7d", "~"]

/-- Constructs that are one token and have no parts. -/
def leaves : List String :=
  ["character", "comment", "escape_sequence", "false", "field_identifier", "identifier",
    "number_literal", "preproc_arg", "preproc_directive", "primitive_type",
    "statement_identifier", "string_content", "system_lib_string", "true", "type_identifier"]

/-- The fields that parts of a construct fill, for the constructs whose fields are listed. -/
def partFields : List (String × List String) :=
  [("abstract_array_declarator", ["declarator", "size"]),
    ("abstract_function_declarator", ["declarator", "parameters"]),
    ("abstract_parenthesized_declarator", []),
    ("abstract_pointer_declarator", ["declarator"]),
    ("alignof_expression", ["type"]),
    ("argument_list", []),
    ("array_declarator", ["declarator", "size"]),
    ("assignment_expression", ["left", "operator", "right"]),
    ("attributed_statement", []),
    ("binary_expression", ["left", "operator", "right"]),
    ("bitfield_clause", []),
    ("break_statement", []),
    ("call_expression", ["arguments", "function"]),
    ("case_statement", ["value"]),
    ("cast_expression", ["type", "value"]),
    ("char_literal", []),
    ("comma_expression", ["left", "right"]),
    ("compound_literal_expression", ["type", "value"]),
    ("compound_statement", []),
    ("concatenated_string", []),
    ("conditional_expression", ["alternative", "condition", "consequence"]),
    ("continue_statement", []),
    ("declaration", ["declarator", "type"]),
    ("declaration_list", []),
    ("do_statement", ["body", "condition"]),
    ("else_clause", []),
    ("enum_specifier", ["body", "name", "underlying_type"]),
    ("enumerator", ["name", "value"]),
    ("enumerator_list", []),
    ("expression_statement", []),
    ("field_declaration", ["declarator", "type"]),
    ("field_declaration_list", []),
    ("field_designator", []),
    ("field_expression", ["argument", "field", "operator"]),
    ("for_statement", ["body", "condition", "initializer", "update"]),
    ("function_declarator", ["declarator", "parameters"]),
    ("function_definition", ["body", "declarator", "type"]),
    ("generic_expression", []),
    ("goto_statement", ["label"]),
    ("if_statement", ["alternative", "condition", "consequence"]),
    ("init_declarator", ["declarator", "value"]),
    ("initializer_list", []),
    ("initializer_pair", ["designator", "value"]),
    ("labeled_statement", ["label"]),
    ("offsetof_expression", ["member", "type"]),
    ("parameter_declaration", ["declarator", "type"]),
    ("parameter_list", []),
    ("parenthesized_declarator", []),
    ("parenthesized_expression", []),
    ("pointer_declarator", ["declarator"]),
    ("pointer_expression", ["argument", "operator"]),
    ("return_statement", []),
    ("sizeof_expression", ["type", "value"]),
    ("storage_class_specifier", []),
    ("string_literal", []),
    ("struct_specifier", ["body", "name"]),
    ("subscript_designator", []),
    ("subscript_expression", ["argument", "index"]),
    ("switch_statement", ["body", "condition"]),
    ("translation_unit", []),
    ("type_definition", ["declarator", "type"]),
    ("type_descriptor", ["declarator", "type"]),
    ("type_qualifier", []),
    ("unary_expression", ["argument", "operator"]),
    ("union_specifier", ["body", "name"]),
    ("update_expression", ["argument", "operator"]),
    ("while_statement", ["body", "condition"])]

end ProbeWeaver.Grammar
