/-!
# Tree/Kind — the kinds of syntax nodes and the names of their fields

A node of a C syntax tree is a named construct or a token.  The constructs that the rules look at
have constructors of their own; every other name is kept as it is spelled.  Fields likewise.

* `Kind.ofName_name`, `Field.ofName_spelling` — a constructor's spelling reads back as the
  constructor.
-/

namespace ProbeWeaver

/-- **The kind of a syntax node**: a named construct, or a token with its spelling. -/
inductive Kind where
  | error | comment | sourceUnit | identifier | fieldIdentifier | typeIdentifier
  | numberLiteral | charLiteral | stringLiteral | concatenatedString | trueLiteral | falseLiteral
  | null | parenthesizedExpression | subscriptExpression | pointerExpression | fieldExpression
  | callExpression | castExpression | compoundLiteralExpression | assignmentExpression
  | updateExpression | unaryExpression | binaryExpression | conditionalExpression
  | commaExpression | sizeofExpression | alignofExpression | offsetofExpression
  | genericExpression | initializerList | expressionStatement | compoundStatement | ifStatement
  | forStatement | whileStatement | doStatement | switchStatement | returnStatement
  | breakStatement | continueStatement | gotoStatement | labeledStatement | attributedStatement
  | sehTryStatement | caseStatement | elseClause | declaration | fieldDeclaration
  | typeDefinition | functionDefinition | parameterDeclaration | initDeclarator
  | attributedDeclarator | pointerDeclarator | arrayDeclarator | functionDeclarator
  | parenthesizedDeclarator | abstractPointerDeclarator | abstractArrayDeclarator
  | abstractFunctionDeclarator | abstractParenthesizedDeclarator | structSpecifier
  | unionSpecifier | enumSpecifier | sizedTypeSpecifier | typeQualifier | storageClassSpecifier
  | linkageSpecification | declarationList | preprocDef | preprocFunctionDef | preprocCall
  | preprocArg | preprocIf | preprocIfdef | preprocElse
  | other (spelling : String)
  | token (spelling : String)
  deriving DecidableEq, Repr

namespace Kind

/-- The spelling of a kind. -/
def name : Kind → String
  | .error => "ERROR"
  | .comment => "comment"
  | .sourceUnit => "translation_unit"
  | .identifier => "identifier"
  | .fieldIdentifier => "field_identifier"
  | .typeIdentifier => "type_identifier"
  | .numberLiteral => "number_literal"
  | .charLiteral => "char_literal"
  | .stringLiteral => "string_literal"
  | .concatenatedString => "concatenated_string"
  | .trueLiteral => "true"
  | .falseLiteral => "false"
  | .null => "null"
  | .parenthesizedExpression => "parenthesized_expression"
  | .subscriptExpression => "subscript_expression"
  | .pointerExpression => "pointer_expression"
  | .fieldExpression => "field_expression"
  | .callExpression => "call_expression"
  | .castExpression => "cast_expression"
  | .compoundLiteralExpression => "compound_literal_expression"
  | .assignmentExpression => "assignment_expression"
  | .updateExpression => "update_expression"
  | .unaryExpression => "unary_expression"
  | .binaryExpression => "binary_expression"
  | .conditionalExpression => "conditional_expression"
  | .commaExpression => "comma_expression"
  | .sizeofExpression => "sizeof_expression"
  | .alignofExpression => "alignof_expression"
  | .offsetofExpression => "offsetof_expression"
  | .genericExpression => "generic_expression"
  | .initializerList => "initializer_list"
  | .expressionStatement => "expression_statement"
  | .compoundStatement => "compound_statement"
  | .ifStatement => "if_statement"
  | .forStatement => "for_statement"
  | .whileStatement => "while_statement"
  | .doStatement => "do_statement"
  | .switchStatement => "switch_statement"
  | .returnStatement => "return_statement"
  | .breakStatement => "break_statement"
  | .continueStatement => "continue_statement"
  | .gotoStatement => "goto_statement"
  | .labeledStatement => "labeled_statement"
  | .attributedStatement => "attributed_statement"
  | .sehTryStatement => "seh_try_statement"
  | .caseStatement => "case_statement"
  | .elseClause => "else_clause"
  | .declaration => "declaration"
  | .fieldDeclaration => "field_declaration"
  | .typeDefinition => "type_definition"
  | .functionDefinition => "function_definition"
  | .parameterDeclaration => "parameter_declaration"
  | .initDeclarator => "init_declarator"
  | .attributedDeclarator => "attributed_declarator"
  | .pointerDeclarator => "pointer_declarator"
  | .arrayDeclarator => "array_declarator"
  | .functionDeclarator => "function_declarator"
  | .parenthesizedDeclarator => "parenthesized_declarator"
  | .abstractPointerDeclarator => "abstract_pointer_declarator"
  | .abstractArrayDeclarator => "abstract_array_declarator"
  | .abstractFunctionDeclarator => "abstract_function_declarator"
  | .abstractParenthesizedDeclarator => "abstract_parenthesized_declarator"
  | .structSpecifier => "struct_specifier"
  | .unionSpecifier => "union_specifier"
  | .enumSpecifier => "enum_specifier"
  | .sizedTypeSpecifier => "sized_type_specifier"
  | .typeQualifier => "type_qualifier"
  | .storageClassSpecifier => "storage_class_specifier"
  | .linkageSpecification => "linkage_specification"
  | .declarationList => "declaration_list"
  | .preprocDef => "preproc_def"
  | .preprocFunctionDef => "preproc_function_def"
  | .preprocCall => "preproc_call"
  | .preprocArg => "preproc_arg"
  | .preprocIf => "preproc_if"
  | .preprocIfdef => "preproc_ifdef"
  | .preprocElse => "preproc_else"
  | .other spelling => spelling
  | .token spelling => spelling

/-- The construct of a name. -/
def ofName : String → Kind
  | "ERROR" => .error
  | "comment" => .comment
  | "translation_unit" => .sourceUnit
  | "identifier" => .identifier
  | "field_identifier" => .fieldIdentifier
  | "type_identifier" => .typeIdentifier
  | "number_literal" => .numberLiteral
  | "char_literal" => .charLiteral
  | "string_literal" => .stringLiteral
  | "concatenated_string" => .concatenatedString
  | "true" => .trueLiteral
  | "false" => .falseLiteral
  | "null" => .null
  | "parenthesized_expression" => .parenthesizedExpression
  | "subscript_expression" => .subscriptExpression
  | "pointer_expression" => .pointerExpression
  | "field_expression" => .fieldExpression
  | "call_expression" => .callExpression
  | "cast_expression" => .castExpression
  | "compound_literal_expression" => .compoundLiteralExpression
  | "assignment_expression" => .assignmentExpression
  | "update_expression" => .updateExpression
  | "unary_expression" => .unaryExpression
  | "binary_expression" => .binaryExpression
  | "conditional_expression" => .conditionalExpression
  | "comma_expression" => .commaExpression
  | "sizeof_expression" => .sizeofExpression
  | "alignof_expression" => .alignofExpression
  | "offsetof_expression" => .offsetofExpression
  | "generic_expression" => .genericExpression
  | "initializer_list" => .initializerList
  | "expression_statement" => .expressionStatement
  | "compound_statement" => .compoundStatement
  | "if_statement" => .ifStatement
  | "for_statement" => .forStatement
  | "while_statement" => .whileStatement
  | "do_statement" => .doStatement
  | "switch_statement" => .switchStatement
  | "return_statement" => .returnStatement
  | "break_statement" => .breakStatement
  | "continue_statement" => .continueStatement
  | "goto_statement" => .gotoStatement
  | "labeled_statement" => .labeledStatement
  | "attributed_statement" => .attributedStatement
  | "seh_try_statement" => .sehTryStatement
  | "case_statement" => .caseStatement
  | "else_clause" => .elseClause
  | "declaration" => .declaration
  | "field_declaration" => .fieldDeclaration
  | "type_definition" => .typeDefinition
  | "function_definition" => .functionDefinition
  | "parameter_declaration" => .parameterDeclaration
  | "init_declarator" => .initDeclarator
  | "attributed_declarator" => .attributedDeclarator
  | "pointer_declarator" => .pointerDeclarator
  | "array_declarator" => .arrayDeclarator
  | "function_declarator" => .functionDeclarator
  | "parenthesized_declarator" => .parenthesizedDeclarator
  | "abstract_pointer_declarator" => .abstractPointerDeclarator
  | "abstract_array_declarator" => .abstractArrayDeclarator
  | "abstract_function_declarator" => .abstractFunctionDeclarator
  | "abstract_parenthesized_declarator" => .abstractParenthesizedDeclarator
  | "struct_specifier" => .structSpecifier
  | "union_specifier" => .unionSpecifier
  | "enum_specifier" => .enumSpecifier
  | "sized_type_specifier" => .sizedTypeSpecifier
  | "type_qualifier" => .typeQualifier
  | "storage_class_specifier" => .storageClassSpecifier
  | "linkage_specification" => .linkageSpecification
  | "declaration_list" => .declarationList
  | "preproc_def" => .preprocDef
  | "preproc_function_def" => .preprocFunctionDef
  | "preproc_call" => .preprocCall
  | "preproc_arg" => .preprocArg
  | "preproc_if" => .preprocIf
  | "preproc_ifdef" => .preprocIfdef
  | "preproc_else" => .preprocElse
  | spelling => .other spelling

theorem ofName_name : ∀ k : Kind, (∀ s, k ≠ .other s) → (∀ s, k ≠ .token s) → ofName k.name = k
  | .other s, h, _ => absurd rfl (h s)
  | .token s, _, h => absurd rfl (h s)
  | .error, _, _ | .comment, _, _ | .sourceUnit, _, _ | .identifier, _, _
  | .fieldIdentifier, _, _ | .typeIdentifier, _, _ | .numberLiteral, _, _
  | .charLiteral, _, _ | .stringLiteral, _, _ | .concatenatedString, _, _
  | .trueLiteral, _, _ | .falseLiteral, _, _ | .null, _, _ | .parenthesizedExpression, _, _
  | .subscriptExpression, _, _ | .pointerExpression, _, _ | .fieldExpression, _, _
  | .callExpression, _, _ | .castExpression, _, _ | .compoundLiteralExpression, _, _
  | .assignmentExpression, _, _ | .updateExpression, _, _ | .unaryExpression, _, _
  | .binaryExpression, _, _ | .conditionalExpression, _, _ | .commaExpression, _, _
  | .sizeofExpression, _, _ | .alignofExpression, _, _ | .offsetofExpression, _, _
  | .genericExpression, _, _ | .initializerList, _, _ | .expressionStatement, _, _
  | .compoundStatement, _, _ | .ifStatement, _, _ | .forStatement, _, _
  | .whileStatement, _, _ | .doStatement, _, _ | .switchStatement, _, _
  | .returnStatement, _, _ | .breakStatement, _, _ | .continueStatement, _, _
  | .gotoStatement, _, _ | .labeledStatement, _, _ | .attributedStatement, _, _
  | .sehTryStatement, _, _ | .caseStatement, _, _ | .elseClause, _, _ | .declaration, _, _
  | .fieldDeclaration, _, _ | .typeDefinition, _, _ | .functionDefinition, _, _
  | .parameterDeclaration, _, _ | .initDeclarator, _, _ | .attributedDeclarator, _, _
  | .pointerDeclarator, _, _ | .arrayDeclarator, _, _ | .functionDeclarator, _, _
  | .parenthesizedDeclarator, _, _ | .abstractPointerDeclarator, _, _
  | .abstractArrayDeclarator, _, _ | .abstractFunctionDeclarator, _, _
  | .abstractParenthesizedDeclarator, _, _ | .structSpecifier, _, _ | .unionSpecifier, _, _
  | .enumSpecifier, _, _ | .sizedTypeSpecifier, _, _ | .typeQualifier, _, _
  | .storageClassSpecifier, _, _ | .linkageSpecification, _, _ | .declarationList, _, _
  | .preprocDef, _, _ | .preprocFunctionDef, _, _ | .preprocCall, _, _ | .preprocArg, _, _
  | .preprocIf, _, _ | .preprocIfdef, _, _ | .preprocElse, _, _ => rfl

/-- A construct of the grammar, not a token. -/
def isNamed : Kind → Bool
  | .token _ => false
  | _ => true

/-- A statement; declarations count. -/
def isStatement : Kind → Bool
  | .expressionStatement | .compoundStatement | .ifStatement | .forStatement | .whileStatement
  | .doStatement | .switchStatement | .returnStatement | .breakStatement | .continueStatement
  | .gotoStatement | .labeledStatement | .declaration | .attributedStatement
  | .sehTryStatement => true
  | _ => false

/-- A preprocessor conditional other than its `elif` and `else` arms. -/
def isConditionalDirective : Kind → Bool
  | .preprocIf | .preprocIfdef => true
  | .other spelling => "preproc_if".toList.isPrefixOf spelling.toList
  | _ => false

end Kind

/-- **The name of a field** that a node fills in its parent. -/
inductive Field where
  | type | declarator | value | body | consequence | alternative | condition | initializer
  | argument | index | left | right | operator | function | field | name | size | parameters
  | other (spelling : String)
  deriving DecidableEq, Repr

namespace Field

/-- The spelling of a field. -/
def spelling : Field → String
  | .type => "type"
  | .declarator => "declarator"
  | .value => "value"
  | .body => "body"
  | .consequence => "consequence"
  | .alternative => "alternative"
  | .condition => "condition"
  | .initializer => "initializer"
  | .argument => "argument"
  | .index => "index"
  | .left => "left"
  | .right => "right"
  | .operator => "operator"
  | .function => "function"
  | .field => "field"
  | .name => "name"
  | .size => "size"
  | .parameters => "parameters"
  | .other spelling => spelling

/-- The field of a name. -/
def ofName : String → Field
  | "type" => .type
  | "declarator" => .declarator
  | "value" => .value
  | "body" => .body
  | "consequence" => .consequence
  | "alternative" => .alternative
  | "condition" => .condition
  | "initializer" => .initializer
  | "argument" => .argument
  | "index" => .index
  | "left" => .left
  | "right" => .right
  | "operator" => .operator
  | "function" => .function
  | "field" => .field
  | "name" => .name
  | "size" => .size
  | "parameters" => .parameters
  | spelling => .other spelling

theorem ofName_spelling : ∀ f : Field, (∀ s, f ≠ .other s) → ofName f.spelling = f
  | .other s, h => absurd rfl (h s)
  | .type, _ | .declarator, _ | .value, _ | .body, _ | .consequence, _ | .alternative, _
  | .condition, _ | .initializer, _ | .argument, _ | .index, _ | .left, _ | .right, _
  | .operator, _ | .function, _ | .field, _ | .name, _ | .size, _ | .parameters, _ => rfl

end Field

end ProbeWeaver
