import ChangeLens.Language.Basic

/-! The languages that are known from the start. A language is a table; what is irregular in it is in the
naming rules of its nodes. -/
namespace ChangeLens.Catalog

open Kind Naming

def javascriptRules : List (String × NodeRule) := [
  ("function_declaration", ⟨function, none⟩),
  ("generator_function_declaration", ⟨function, none⟩),
  ("class_declaration", ⟨classLike, none⟩),
  ("import_statement", ⟨importing, some importSource⟩),
  ("export_statement", ⟨exporting, some exported⟩),
  ("lexical_declaration", ⟨binding, some valueDeclarators⟩),
  ("variable_declaration", ⟨binding, some valueDeclarators⟩),
  ("expression_statement", ⟨exporting, some moduleExports⟩)]

def typescriptRules : List (String × NodeRule) := javascriptRules ++ [
  ("abstract_class_declaration", ⟨classLike, none⟩),
  ("interface_declaration", ⟨classLike, none⟩),
  ("type_alias_declaration", ⟨classLike, none⟩),
  ("enum_declaration", ⟨classLike, none⟩),
  ("function_signature", ⟨function, none⟩)]

def pythonRules : List (String × NodeRule) := [
  ("function_definition", ⟨function, none⟩),
  ("class_definition", ⟨classLike, none⟩),
  ("import_statement", ⟨importing, some wholeText⟩),
  ("import_from_statement", ⟨importing, some wholeText⟩),
  ("future_import_statement", ⟨importing, some wholeText⟩),
  ("expression_statement", ⟨binding, some assignedFirst⟩)]

def goRules : List (String × NodeRule) := [
  ("function_declaration", ⟨function, none⟩),
  ("method_declaration", ⟨function, some receiverMethod⟩),
  ("type_declaration", ⟨classLike, some typeSpecs⟩),
  ("import_declaration", ⟨importing, some wholeText⟩),
  ("var_declaration", ⟨binding, some (specGroup "var_spec" (some "var_spec_list"))⟩),
  ("const_declaration", ⟨binding, some (specGroup "const_spec" none)⟩)]

def rustRules : List (String × NodeRule) := [
  ("function_item", ⟨function, none⟩),
  ("struct_item", ⟨classLike, none⟩),
  ("enum_item", ⟨classLike, none⟩),
  ("union_item", ⟨classLike, none⟩),
  ("trait_item", ⟨classLike, none⟩),
  ("impl_item", ⟨classLike, some implementation⟩),
  ("use_declaration", ⟨importing, some wholeText⟩),
  ("const_item", ⟨binding, none⟩),
  ("static_item", ⟨binding, none⟩),
  ("type_item", ⟨classLike, none⟩),
  ("mod_item", ⟨exporting, none⟩),
  ("macro_definition", ⟨function, none⟩)]

def javaRules : List (String × NodeRule) := [
  ("method_declaration", ⟨function, none⟩),
  ("class_declaration", ⟨classLike, none⟩),
  ("interface_declaration", ⟨classLike, none⟩),
  ("enum_declaration", ⟨classLike, none⟩),
  ("record_declaration", ⟨classLike, none⟩),
  ("annotation_type_declaration", ⟨classLike, none⟩),
  ("import_declaration", ⟨importing, some wholeText⟩),
  ("field_declaration", ⟨binding, some namedDeclarators⟩)]

def cRules : List (String × NodeRule) := [
  ("function_definition", ⟨function, some functionDeclarator⟩),
  ("declaration", ⟨binding, some declarators⟩),
  ("struct_specifier", ⟨classLike, some nameOrSkip⟩),
  ("union_specifier", ⟨classLike, some nameOrSkip⟩),
  ("enum_specifier", ⟨classLike, some nameOrSkip⟩),
  ("type_definition", ⟨classLike, some typedefs⟩),
  ("preproc_include", ⟨importing, some wholeText⟩),
  ("preproc_def", ⟨binding, some nameOrSkip⟩),
  ("preproc_function_def", ⟨function, some nameOrSkip⟩)]

def cppRules : List (String × NodeRule) := cRules ++ [
  ("class_specifier", ⟨classLike, some nameOrSkip⟩),
  ("namespace_definition", ⟨exporting, some nameOrAnonymous⟩),
  ("template_declaration", ⟨function, some template⟩),
  ("using_declaration", ⟨importing, some wholeText⟩),
  ("alias_declaration", ⟨classLike, none⟩)]

def rubyRules : List (String × NodeRule) := [
  ("method", ⟨function, none⟩),
  ("singleton_method", ⟨function, none⟩),
  ("class", ⟨classLike, some nameOrSkip⟩),
  ("module", ⟨classLike, some nameOrSkip⟩),
  ("call", ⟨importing, some loadCall⟩),
  ("assignment", ⟨binding, some assigned⟩)]

def phpRules : List (String × NodeRule) := [
  ("function_definition", ⟨function, none⟩),
  ("method_declaration", ⟨function, none⟩),
  ("class_declaration", ⟨classLike, none⟩),
  ("interface_declaration", ⟨classLike, none⟩),
  ("trait_declaration", ⟨classLike, none⟩),
  ("enum_declaration", ⟨classLike, none⟩),
  ("namespace_use_declaration", ⟨importing, some wholeText⟩),
  ("namespace_definition", ⟨exporting, some nameOrAnonymous⟩),
  ("property_declaration", ⟨binding, some (firstElement "property_element")⟩),
  ("const_declaration", ⟨binding, some (firstElement "const_element")⟩)]

def csharpRules : List (String × NodeRule) := [
  ("method_declaration", ⟨function, none⟩),
  ("local_function_statement", ⟨function, none⟩),
  ("class_declaration", ⟨classLike, none⟩),
  ("interface_declaration", ⟨classLike, none⟩),
  ("struct_declaration", ⟨classLike, none⟩),
  ("enum_declaration", ⟨classLike, none⟩),
  ("record_declaration", ⟨classLike, none⟩),
  ("delegate_declaration", ⟨classLike, none⟩),
  ("namespace_declaration", ⟨exporting, some nameOrAnonymous⟩),
  ("file_scoped_namespace_declaration", ⟨exporting, some nameOrAnonymous⟩),
  ("using_directive", ⟨importing, some wholeText⟩),
  ("field_declaration", ⟨binding, some nestedDeclarators⟩),
  ("property_declaration", ⟨binding, none⟩)]

def languages : List Language := [
  ⟨"javascript", [".js", ".jsx", ".mjs", ".cjs"], ⟨"tree_sitter_javascript", "language"⟩,
    javascriptRules, [], "ecmascript"⟩,
  ⟨"typescript", [".ts", ".mts", ".cts"], ⟨"tree_sitter_typescript", "language_typescript"⟩,
    typescriptRules, [], "ecmascript"⟩,
  ⟨"tsx", [".tsx"], ⟨"tree_sitter_typescript", "language_tsx"⟩, typescriptRules, [], "ecmascript"⟩,
  ⟨"python", [".py", ".pyi"], ⟨"tree_sitter_python", "language"⟩, pythonRules,
    [("decorated_definition", "definition")], "python"⟩,
  ⟨"go", [".go"], ⟨"tree_sitter_go", "language"⟩, goRules, [], "go"⟩,
  ⟨"rust", [".rs"], ⟨"tree_sitter_rust", "language"⟩, rustRules, [], "rust"⟩,
  ⟨"java", [".java"], ⟨"tree_sitter_java", "language"⟩, javaRules, [], "java"⟩,
  ⟨"c", [".c", ".h"], ⟨"tree_sitter_c", "language"⟩, cRules, [], "c"⟩,
  ⟨"cpp", [".cpp", ".cc", ".cxx", ".hpp", ".hh", ".hxx"], ⟨"tree_sitter_cpp", "language"⟩, cppRules, [], "c"⟩,
  ⟨"ruby", [".rb"], ⟨"tree_sitter_ruby", "language"⟩, rubyRules, [], "ruby"⟩,
  ⟨"php", [".php"], ⟨"tree_sitter_php", "language_php"⟩, phpRules, [], "php"⟩,
  ⟨"csharp", [".cs"], ⟨"tree_sitter_c_sharp", "language"⟩, csharpRules, [], "csharp"⟩]

/-- A language that has a grammar and no table of nodes; its declarations are all of the kind `other`. -/
structure Untabled where
  extension : String
  id : String
  grammar : Grammar

def untabled : List Untabled := [
  ⟨".sh", "bash", ⟨"tree_sitter_bash", "language"⟩⟩,
  ⟨".bash", "bash", ⟨"tree_sitter_bash", "language"⟩⟩]

end ChangeLens.Catalog
