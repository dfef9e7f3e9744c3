import CodeSearch.Language.Table

/-!
# The tables of the supported languages

Names are found by queries that capture exactly one node. TypeScript and TSX have
grammars of their own but share a table, since the kinds it names are the same.
-/
namespace CodeSearch.Table

/-- Methods are filed under the type of their receiver. -/
def go : Table where
  named := [
    { kind := "function_declaration"
      name := "(function_declaration name: (identifier) @name)" },
    { kind := "method_declaration"
      name := "(method_declaration name: (field_identifier) @name)"
      parent := some "(method_declaration receiver: (parameter_list (parameter_declaration type: [(type_identifier) @name (pointer_type (type_identifier) @name)])))" },
    { kind := "type_declaration"
      name := "(type_declaration [(type_spec name: (type_identifier) @name) (type_alias name: (type_identifier) @name)])" },
    { kind := "const_declaration"
      name := "(const_declaration (const_spec name: (identifier) @name))" },
    { kind := "var_declaration"
      name := "(var_declaration (var_spec name: (identifier) @name))" }]
  containers := []
  folded := [
    "comment"]
  skipped := [
    "package_clause", "import_declaration"]
  rules := [
    ⟨"**/*_test.go", .tests⟩,
    ⟨"vendor/**", .ignored⟩]

/-- Exported declarations keep the name they have without the export. -/
def javaScript : Table where
  named := [
    { kind := "function_declaration"
      name := "(function_declaration name: (identifier) @name)" },
    { kind := "generator_function_declaration"
      name := "(generator_function_declaration name: (identifier) @name)" },
    { kind := "class_declaration"
      name := "(class_declaration name: (identifier) @name)" },
    { kind := "method_definition"
      name := "(method_definition name: (property_identifier) @name)" },
    { kind := "field_definition"
      name := "(field_definition property: (property_identifier) @name)" },
    { kind := "lexical_declaration"
      name := "(lexical_declaration (variable_declarator name: (identifier) @name))" },
    { kind := "variable_declaration"
      name := "(variable_declaration (variable_declarator name: (identifier) @name))" },
    { kind := "export_statement"
      name := "(export_statement declaration: (_ name: (identifier) @name)) (export_statement declaration: (lexical_declaration (variable_declarator name: (identifier) @name)))" }]
  containers := [
    "class_declaration", "export_statement"]
  folded := [
    "comment"]
  skipped := [
    "import_statement"]
  rules := [
    ⟨"**/*.test.js", .tests⟩,
    ⟨"**/*.test.jsx", .tests⟩,
    ⟨"**/*.spec.js", .tests⟩,
    ⟨"**/*.spec.jsx", .tests⟩,
    ⟨"**/__tests__/**", .tests⟩,
    ⟨"**/node_modules/**", .ignored⟩,
    ⟨"**/dist/**", .ignored⟩,
    ⟨"**/build/**", .ignored⟩,
    ⟨"**/*.min.js", .ignored⟩]

/-- A docstring is the summary of the function or class it stands in. -/
def python : Table where
  named := [
    { kind := "function_definition"
      name := "(function_definition name: (identifier) @name)"
      summary := some "(function_definition body: (block . (expression_statement (string) @summary)))" },
    { kind := "class_definition"
      name := "(class_definition name: (identifier) @name)"
      summary := some "(class_definition body: (block . (expression_statement (string) @summary)))" },
    { kind := "decorated_definition"
      name := "(decorated_definition definition: (_ name: (identifier) @name))"
      summary := some "(decorated_definition definition: (_ body: (block . (expression_statement (string) @summary))))" }]
  containers := [
    "class_definition", "decorated_definition"]
  folded := [
    "comment"]
  skipped := [
    "import_statement", "import_from_statement", "future_import_statement"]
  rules := [
    ⟨"**/test_*.py", .tests⟩,
    ⟨"**/*_test.py", .tests⟩,
    ⟨"**/conftest.py", .tests⟩,
    ⟨"**/__pycache__/**", .ignored⟩,
    ⟨"**/.venv/**", .ignored⟩,
    ⟨"**/venv/**", .ignored⟩,
    ⟨"**/site-packages/**", .ignored⟩,
    ⟨"**/build/**", .ignored⟩]

/-- An `impl` block is marked so that it does not clash with its type, while what lies inside is filed under the bare type. -/
def rust : Table where
  named := [
    { kind := "function_item"
      name := "(function_item name: (identifier) @name)" },
    { kind := "function_signature_item"
      name := "(function_signature_item name: (identifier) @name)" },
    { kind := "struct_item"
      name := "(struct_item name: (type_identifier) @name)" },
    { kind := "enum_item"
      name := "(enum_item name: (type_identifier) @name)" },
    { kind := "union_item"
      name := "(union_item name: (type_identifier) @name)" },
    { kind := "trait_item"
      name := "(trait_item name: (type_identifier) @name)" },
    { kind := "impl_item"
      name := "(impl_item type: (_) @name)"
      marker := some "impl " },
    { kind := "mod_item"
      name := "(mod_item name: (identifier) @name)" },
    { kind := "const_item"
      name := "(const_item name: (identifier) @name)" },
    { kind := "static_item"
      name := "(static_item name: (identifier) @name)" },
    { kind := "type_item"
      name := "(type_item name: (type_identifier) @name)" },
    { kind := "macro_definition"
      name := "(macro_definition name: (identifier) @name)" }]
  containers := [
    "impl_item", "trait_item", "mod_item"]
  folded := [
    "line_comment", "block_comment", "attribute_item", "inner_attribute_item"]
  skipped := [
    "use_declaration", "extern_crate_declaration"]
  rules := [
    ⟨"benches/**", .tests⟩,
    ⟨"**/target/**", .ignored⟩]

/-- Imports say nothing about the code and are left out of the index. -/
def typeScript : Table where
  named := [
    { kind := "function_declaration"
      name := "(function_declaration name: (identifier) @name)" },
    { kind := "function_signature"
      name := "(function_signature name: (identifier) @name)" },
    { kind := "generator_function_declaration"
      name := "(generator_function_declaration name: (identifier) @name)" },
    { kind := "class_declaration"
      name := "(class_declaration name: (type_identifier) @name)" },
    { kind := "abstract_class_declaration"
      name := "(abstract_class_declaration name: (type_identifier) @name)" },
    { kind := "interface_declaration"
      name := "(interface_declaration name: (type_identifier) @name)" },
    { kind := "type_alias_declaration"
      name := "(type_alias_declaration name: (type_identifier) @name)" },
    { kind := "enum_declaration"
      name := "(enum_declaration name: (identifier) @name)" },
    { kind := "lexical_declaration"
      name := "(lexical_declaration (variable_declarator name: (identifier) @name))" },
    { kind := "variable_declaration"
      name := "(variable_declaration (variable_declarator name: (identifier) @name))" },
    { kind := "ambient_declaration"
      name := "(ambient_declaration (variable_declaration (variable_declarator name: (identifier) @name)))" },
    { kind := "export_statement"
      name := "(export_statement declaration: (_ name: (_) @name)) (export_statement declaration: (lexical_declaration (variable_declarator name: (identifier) @name)))" },
    { kind := "module"
      name := "(module name: (_) @name)" },
    { kind := "internal_module"
      name := "(internal_module name: (_) @name)" },
    { kind := "method_definition"
      name := "(method_definition name: (property_identifier) @name)" },
    { kind := "method_signature"
      name := "(method_signature name: (property_identifier) @name)" },
    { kind := "abstract_method_signature"
      name := "(abstract_method_signature name: (property_identifier) @name)" },
    { kind := "public_field_definition"
      name := "(public_field_definition name: (property_identifier) @name)" }]
  containers := [
    "class_declaration", "abstract_class_declaration", "export_statement"]
  folded := [
    "comment"]
  skipped := [
    "import_statement", "import_alias"]
  rules := [
    ⟨"**/*.test.ts", .tests⟩,
    ⟨"**/*.test.tsx", .tests⟩,
    ⟨"**/*.spec.ts", .tests⟩,
    ⟨"**/*.spec.tsx", .tests⟩,
    ⟨"**/node_modules/**", .ignored⟩,
    ⟨"**/dist/**", .ignored⟩,
    ⟨"**/build/**", .ignored⟩,
    ⟨"**/*.d.ts", .ignored⟩]

end CodeSearch.Table
