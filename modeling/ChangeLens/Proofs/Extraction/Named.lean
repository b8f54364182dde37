import ChangeLens.Proofs.Extraction.Unplaced
import ChangeLens.Proofs.Language.Lookup

/-! Which declarations have no name. Most rules ask whether the text that they take for a name is empty, and put
something in its place or pass it over. Some take the text of a node below the declaring one as it stands, and so does
the rule for imports inside a wrapper: there a node of no width leaves a declaration without a name. -/
namespace ChangeLens

open Node

namespace Node

variable {n m c : Node} {field : String}

theorem someTextAt?_ne_empty {s : String} (found : n.someTextAt? field = some s) : s ≠ "" := by
  simpa using (Option.filter_eq_some_iff.mp found).2

theorem getD_someTextAt?_ne_empty {other : String} (solid : other ≠ "") (n : Node) (field : String) :
    (n.someTextAt? field).getD other ≠ "" := by
  cases found : n.someTextAt? field with
  | none => exact solid
  | some s => exact someTextAt?_ne_empty found

theorem mem_of_child? (found : n.child? field = some c) : c ∈ n.children := List.mem_of_find?_eq_some found

theorem mem_preorder_of_mem_chain (linked : m ∈ n.chain field) : m ∈ n.preorder := by
  induction n using induction with
  | step n ih =>
    rw [chain_eq, List.mem_cons] at linked
    rcases linked with rfl | below
    · exact mem_preorder_self _
    · cases found : n.child? field with
      | none => simp [found] at below
      | some c =>
        rw [found] at below
        exact mem_preorder_trans (ih c (mem_of_child? found) below) (mem_preorder_of_mem_children (mem_of_child? found))

theorem innermost_mem_preorder (n : Node) (field : String) : n.innermost field ∈ n.preorder := by
  rw [innermost]
  cases last : (n.chain field).getLast? with
  | none => exact mem_preorder_self n
  | some m => exact mem_preorder_of_mem_chain (List.mem_of_getLast? last)

end Node

namespace Naming

/-- `m` is a node whose text a rule takes for a name without asking whether it is empty, where the rule stands at `n`.
The rules that name a node by its own text only where nothing better is found in it are left out. -/
inductive Takes : Naming → Node → Node → Prop
  | wholeText {n} : Takes .wholeText n n
  | spec {spec list n s m} : s ∈ n.childrenOfType [spec] → m ∈ s.childrenAt "name" → Takes (.specGroup spec list) n m
  | listedSpec {spec list n group s m} : group ∈ n.childrenOfType [list] → s ∈ group.childrenOfType [spec] →
      m ∈ s.childrenAt "name" → Takes (.specGroup spec (some list)) n m
  | functionDeclarator {n d} : n.child? "declarator" = some d → Takes .functionDeclarator n (d.innermost "declarator")
  | typedef {n d} : d ∈ n.childrenAt "declarator" → Takes .typedefs n (d.innermost "declarator")
  | template {n c m} : n.children.find? (["function_definition", "class_specifier", "struct_specifier",
      "declaration"].contains ·.type) = some c → c.type = "function_definition" → Takes .functionDeclarator c m →
      Takes .template n m

variable {n m : Node} {naming : Naming} {found : Found}

/-- The rules that name a node by its own text where they find nothing better. -/
def fallingBack : List Naming := [.importSource, .exported, .loadCall]

def reachesDown : Naming → Bool
  | .specGroup .. | .functionDeclarator | .typedefs | .template => true
  | _ => false

def takesText : Naming → Bool
  | .wholeText => true
  | naming => naming.reachesDown

theorem Takes.takesText (takes : Takes naming n m) : naming.takesText := by
  cases takes <;> rfl

theorem Takes.eq_or_reachesDown (takes : Takes naming n m) : m = n ∨ naming.reachesDown := by
  cases takes with
  | wholeText => exact .inl rfl
  | _ => exact .inr rfl

theorem mem_preorder_of_at {c : Node} {role : String} (member : c ∈ n.childrenAt role) : c ∈ n.preorder :=
  mem_preorder_of_mem_children (List.mem_of_mem_filter member)

theorem mem_preorder_of_type {c : Node} {types : List String} (member : c ∈ n.childrenOfType types) :
    c ∈ n.preorder :=
  mem_preorder_of_mem_children (List.mem_of_mem_filter member)

theorem Takes.mem_preorder (takes : Takes naming n m) : m ∈ n.preorder := by
  induction takes with
  | wholeText => exact mem_preorder_self _
  | spec one name => exact mem_preorder_trans (mem_preorder_of_at name) (mem_preorder_of_type one)
  | listedSpec group one name =>
    exact mem_preorder_trans (mem_preorder_trans (mem_preorder_of_at name) (mem_preorder_of_type one))
      (mem_preorder_of_type group)
  | functionDeclarator first =>
    exact mem_preorder_trans (innermost_mem_preorder ..) (mem_preorder_of_mem_children (mem_of_child? first))
  | typedef member => exact mem_preorder_trans (innermost_mem_preorder ..) (mem_preorder_of_at member)
  | template wrapped _ _ ih =>
    exact mem_preorder_trans ih (mem_preorder_of_mem_children (List.mem_of_find?_eq_some wrapped))

theorem nameOrAnonymousIn_ne_empty (n : Node) : nameOrAnonymousIn n ≠ "" :=
  getD_someTextAt?_ne_empty (by decide) n "name"

theorem named_of_someTextAt? {role : String} (member : found ∈ ((n.someTextAt? role).map named).toList) :
    found.name ≠ "" := by
  obtain ⟨s, text, rfl⟩ : ∃ s, n.someTextAt? role = some s ∧ named s = found := by simpa using member
  exact someTextAt?_ne_empty text

theorem named_inValueDeclarators (member : found ∈ inValueDeclarators n) : found.name ≠ "" := by
  obtain ⟨d, -, rfl⟩ := List.mem_map.mp member
  exact getD_someTextAt?_ne_empty (by decide) d "name"

theorem named_inExport (solid : n.text ≠ "") (member : found ∈ inExport n) : found.name ≠ "" := by
  have beginning : String.ofList (n.text.toList.take exportNameLength) ≠ "" := by
    simpa [← String.toList_eq_nil_iff, exportNameLength] using solid
  have short {found : Found} (only : found ∈ [named (.ofList (n.text.toList.take exportNameLength))]) :
      found.name ≠ "" := List.mem_singleton.mp only ▸ beginning
  unfold inExport at member
  dsimp only at member
  split at member
  next => exact short member
  next d _ =>
    split at member
    next text => exact List.mem_singleton.mp member ▸ someTextAt?_ne_empty text
    next =>
      have declared : ∀ found ∈ if ["lexical_declaration", "variable_declaration"].contains d.type then
          (inValueDeclarators d).map fun found => named found.name else [], found.name ≠ "" := by
        intro found one
        split at one
        next =>
          obtain ⟨inner, member, rfl⟩ := List.mem_map.mp one
          change inner.name ≠ ""
          exact named_inValueDeclarators member
        next => contradiction
      generalize (if ["lexical_declaration", "variable_declaration"].contains d.type then _ else _) = names
        at member declared
      split at member
      next => exact short member
      next => exact declared _ member

theorem named_inModuleExports (member : found ∈ inModuleExports n) : found.name ≠ "" := by
  unfold inModuleExports at member
  split at member
  next =>
    split at member
    next => exact List.mem_singleton.mp member ▸ by decide
    next => contradiction
  next => contradiction

theorem named_inAssignedFirst (member : found ∈ inAssignedFirst n) : found.name ≠ "" := by
  unfold inAssignedFirst at member
  split at member
  next =>
    split at member
    next => exact named_of_someTextAt? member
    next => contradiction
  next => contradiction

theorem named_inReceiverMethod (member : found ∈ inReceiverMethod n) : found.name ≠ "" := by
  rw [inReceiverMethod, List.mem_singleton] at member
  rw [member, named]
  dsimp only
  split
  next => exact nameOrAnonymousIn_ne_empty n
  next => simp

theorem named_inImplementation (member : found ∈ inImplementation n) : found.name ≠ "" := by
  rw [inImplementation, List.mem_singleton] at member
  rw [member, named]
  dsimp only
  split <;> simp

theorem named_inDeclarators (member : found ∈ inDeclarators n) : found.name ≠ "" := by
  obtain ⟨d, -, found⟩ := List.mem_filterMap.mp member
  split at found
  next => contradiction
  next solid =>
    rw [← Option.some.inj found]
    simpa using solid

theorem named_inLoadCall (solid : n.text ≠ "") (member : found ∈ inLoadCall n) : found.name ≠ "" := by
  unfold inLoadCall at member
  split at member
  next => contradiction
  next =>
    split at member
    next =>
      split at member
      next => exact List.mem_singleton.mp member ▸ solid
      next => contradiction
    next => contradiction

theorem named_inFirstElement {type : String} (member : found ∈ inFirstElement type n) : found.name ≠ "" := by
  obtain ⟨s, first, rfl⟩ : ∃ s, ((n.childrenOfType [type]).map elementName).find? (!·.isEmpty) = some s ∧
      named s = found := by simpa [inFirstElement] using member
  simpa [named] using List.find?_some first

theorem named_inNestedDeclarators (member : found ∈ inNestedDeclarators n) : found.name ≠ "" := by
  obtain ⟨d, -, inner⟩ := List.mem_flatMap.mp member
  obtain ⟨v, -, text⟩ := List.mem_filterMap.mp inner
  obtain ⟨s, kept, rfl⟩ := Option.map_eq_some_iff.mp text
  simpa [named] using (Option.filter_eq_some_iff.mp kept).2

theorem mem_inSpecGroup {spec : String} {list : Option String} :
    found ∈ inSpecGroup spec list n ↔ ∃ m, Takes (.specGroup spec list) n m ∧ named m.text = found := by
  simp only [inSpecGroup, List.mem_flatMap, List.mem_append, List.mem_map]
  constructor
  · rintro ⟨s, one | listed, m, name, rfl⟩
    · exact ⟨m, .spec one name, rfl⟩
    · cases list with
      | none => contradiction
      | some list =>
        obtain ⟨group, member, one⟩ := List.mem_flatMap.mp listed
        exact ⟨m, .listedSpec member one name, rfl⟩
  · rintro ⟨m, takes, rfl⟩
    cases takes with
    | spec one name => exact ⟨_, .inl one, m, name, rfl⟩
    | listedSpec group one name => exact ⟨_, .inr (List.mem_flatMap.mpr ⟨_, group, one⟩), m, name, rfl⟩

theorem mem_inFunctionDeclarator :
    found ∈ inFunctionDeclarator n ↔ ∃ m, Takes .functionDeclarator n m ∧ named m.text = found := by
  constructor
  · intro member
    obtain ⟨d, first, rfl⟩ : ∃ d, n.child? "declarator" = some d ∧ named (declaratorName d) = found := by
      simpa [inFunctionDeclarator] using member
    exact ⟨_, .functionDeclarator first, rfl⟩
  · rintro ⟨m, takes, rfl⟩
    cases takes with
    | functionDeclarator first => simp [inFunctionDeclarator, first, declaratorName]

theorem mem_inTypedefs : found ∈ typedefs.find n ↔ ∃ m, Takes .typedefs n m ∧ named m.text = found := by
  constructor
  · intro member
    obtain ⟨d, declares, rfl⟩ := List.mem_map.mp member
    exact ⟨_, .typedef declares, rfl⟩
  · rintro ⟨m, takes, rfl⟩
    cases takes with
    | typedef declares => exact List.mem_map.mpr ⟨_, declares, rfl⟩

theorem mem_inWholeText : found ∈ wholeText.find n ↔ ∃ m, Takes .wholeText n m ∧ named m.text = found := by
  constructor
  · intro member
    obtain rfl := List.mem_singleton.mp member
    exact ⟨n, .wholeText, rfl⟩
  · rintro ⟨m, takes, rfl⟩
    cases takes with
    | wholeText => exact List.mem_singleton_self _

/-- A rule that finds just the texts that it takes finds no name just where one of them is empty. -/
theorem unnamed_of_mem_iff (finds : ∀ {found}, found ∈ naming.find n ↔ ∃ m, Takes naming n m ∧ named m.text = found) :
    (∃ found ∈ naming.find n, found.name = "") ↔ ∃ m, Takes naming n m ∧ m.text = "" := by
  simp only [finds]
  constructor
  · rintro ⟨-, ⟨m, takes, rfl⟩, unnamed⟩
    exact ⟨m, takes, unnamed⟩
  · rintro ⟨m, takes, empty⟩
    exact ⟨_, ⟨m, takes, rfl⟩, empty⟩

theorem unnamed_inTemplate : (∃ found ∈ inTemplate n, found.name = "") ↔ ∃ m, Takes .template n m ∧ m.text = "" := by
  constructor
  · rintro ⟨found, member, unnamed⟩
    unfold inTemplate at member
    dsimp only at member
    split at member
    next => contradiction
    next c wrapped =>
      split at member
      next isFunction =>
        obtain ⟨m, takes, rfl⟩ := mem_inFunctionDeclarator.mp member
        exact ⟨m, .template wrapped (by simpa using isFunction) takes, unnamed⟩
      next =>
        split at member
        next => exact absurd unnamed (named_inDeclarators member)
        next =>
          obtain ⟨s, text, rfl⟩ : ∃ s, c.someTextAt? "name" = some s ∧ ⟨s, some .classLike⟩ = found := by
            simpa using member
          exact absurd unnamed (someTextAt?_ne_empty text)
  · rintro ⟨m, takes, empty⟩
    cases takes with
    | template wrapped isFunction takes =>
      refine ⟨named m.text, ?_, empty⟩
      unfold inTemplate
      dsimp only
      rw [wrapped]
      simpa [isFunction] using mem_inFunctionDeclarator.mpr ⟨m, takes, rfl⟩

/-- A rule finds no name just where it takes an empty text as it stands. -/
theorem find_unnamed_iff (solid : naming ∈ fallingBack → n.text ≠ "") :
    (∃ found ∈ naming.find n, found.name = "") ↔ ∃ m, Takes naming n m ∧ m.text = "" := by
  -- where all names are asked for, there is nothing on either side
  have asked (named : ∀ found ∈ naming.find n, found.name ≠ "") (takesNone : naming.takesText = false) :
      (∃ found ∈ naming.find n, found.name = "") ↔ ∃ m, Takes naming n m ∧ m.text = "" := by
    refine iff_of_false (fun ⟨found, member, unnamed⟩ => named found member unnamed) fun ⟨m, takes, _⟩ => ?_
    simp [takes.takesText] at takesNone
  cases naming with
  | wholeText => exact unnamed_of_mem_iff mem_inWholeText
  | specGroup => exact unnamed_of_mem_iff mem_inSpecGroup
  | functionDeclarator => exact unnamed_of_mem_iff mem_inFunctionDeclarator
  | typedefs => exact unnamed_of_mem_iff mem_inTypedefs
  | template => exact unnamed_inTemplate
  | nameOrSkip => exact asked (fun _ => named_of_someTextAt?) rfl
  | nameOrAnonymous =>
    exact asked (fun _ member => List.mem_singleton.mp member ▸ nameOrAnonymousIn_ne_empty n) rfl
  | valueDeclarators => exact asked (fun _ => named_inValueDeclarators) rfl
  | importSource =>
    have own : n.text ≠ "" := solid (by decide)
    exact asked (fun _ member => List.mem_singleton.mp member ▸ getD_someTextAt?_ne_empty own n "source") rfl
  | exported => exact asked (fun _ => named_inExport (solid (by decide))) rfl
  | moduleExports => exact asked (fun _ => named_inModuleExports) rfl
  | assignedFirst => exact asked (fun _ => named_inAssignedFirst) rfl
  | assigned => exact asked (fun _ => named_of_someTextAt?) rfl
  | receiverMethod => exact asked (fun _ => named_inReceiverMethod) rfl
  | typeSpecs =>
    refine asked (fun _ member => ?_) rfl
    obtain ⟨s, -, rfl⟩ := List.mem_map.mp member
    exact nameOrAnonymousIn_ne_empty s
  | implementation => exact asked (fun _ => named_inImplementation) rfl
  | namedDeclarators =>
    refine asked (fun _ member => ?_) rfl
    obtain ⟨d, -, text⟩ := List.mem_filterMap.mp member
    obtain ⟨s, name, rfl⟩ := Option.map_eq_some_iff.mp text
    exact someTextAt?_ne_empty name
  | declarators => exact asked (fun _ => named_inDeclarators) rfl
  | loadCall => exact asked (fun _ => named_inLoadCall (solid (by decide))) rfl
  | firstElement => exact asked (fun _ => named_inFirstElement) rfl
  | nestedDeclarators => exact asked (fun _ => named_inNestedDeclarators) rfl

end Naming

namespace Extraction

variable {l : Language} {n m : Node}

/-- `m` is a node of `n` whose text becomes the name of a declaration as it stands. -/
def TakesFrom (l : Language) (n m : Node) : Prop :=
  ∃ rule naming, l.rule? (unwrap l n).type = some rule ∧ rule.naming = some naming ∧ naming.Takes (unwrap l n) m

/-- A language without wrappers, or one whose rules never fall back on the text of a whole node. -/
theorem wrappers_nil_or : ∀ l ∈ Catalog.languages, l.wrappers = [] ∨
    ∀ r ∈ l.rules, ∀ naming ∈ r.2.naming, naming ∉ Naming.fallingBack := by
  decide +kernel

/-- The languages in which a name may be taken from below the declaring node as it stands. -/
def unchecked : List String := ["python", "go", "c", "cpp"]

theorem checked_languages : ∀ l ∈ Catalog.languages, l.id ∉ unchecked → l.wrappers = [] ∧
    ∀ r ∈ l.rules, ∀ naming ∈ r.2.naming, naming.reachesDown = false := by
  decide +kernel

theorem unwrap_of_wrappers_nil (bare : l.wrappers = []) (n : Node) : unwrap l n = n := by
  simp [unwrap, bare]

theorem unwrap_mem_preorder (l : Language) (n : Node) : unwrap l n ∈ n.preorder := by
  unfold unwrap
  split
  next field _ =>
    cases found : n.child? field with
    | none => exact mem_preorder_self n
    | some c => exact mem_preorder_of_mem_children (mem_of_child? found)
  next => exact mem_preorder_self n

theorem mem_preorder_of_takesFrom (takes : TakesFrom l n m) : m ∈ n.preorder := by
  obtain ⟨_, _, -, -, takes⟩ := takes
  exact mem_preorder_trans takes.mem_preorder (unwrap_mem_preorder l n)

theorem rule_mem {type : String} {rule : NodeRule} (found : l.rule? type = some rule) : (type, rule) ∈ l.rules := by
  obtain ⟨before, after, split, -⟩ := List.lookup_eq_some_iff.mp found
  rw [split]
  simp

theorem declared_unnamed_iff (known : l ∈ Catalog.languages) (solid : n.text ≠ "") :
    (∃ d ∈ declared l n, d.name = "") ↔ ∃ m, TakesFrom l n m ∧ m.text = "" := by
  unfold declared TakesFrom
  dsimp only
  cases ruled : l.rule? (unwrap l n).type with
  | none => simp
  | some rule =>
    cases way : rule.naming with
    | none =>
      have named := getD_someTextAt?_ne_empty (by decide : anonymous ≠ "") (unwrap l n) "name"
      simp [way, named]
    | some naming =>
      have own : naming ∈ Naming.fallingBack → (unwrap l n).text ≠ "" := by
        intro falls
        rcases wrappers_nil_or l known with bare | never
        · rwa [unwrap_of_wrappers_nil bare]
        · exact absurd falls (never _ (rule_mem ruled) naming way)
      have found := Naming.find_unnamed_iff own
      simpa [way] using found

/-- In most languages every declaration has a name. -/
theorem ne_empty_of_takesFrom (known : l ∈ Catalog.languages) (checked : l.id ∉ unchecked) (solid : n.text ≠ "")
    (takes : TakesFrom l n m) : m.text ≠ "" := by
  obtain ⟨bare, never⟩ := checked_languages l known checked
  obtain ⟨rule, naming, ruled, way, takes⟩ := takes
  rw [unwrap_of_wrappers_nil bare] at ruled takes
  rcases takes.eq_or_reachesDown with rfl | down
  · exact solid
  · exact absurd down (by simp [never _ (rule_mem ruled) naming way])

theorem get?_standard (known : l ∈ Catalog.languages) : Registry.standard.get? l.id = some l :=
  Registry.get?_id Registry.unambiguous_standard known

theorem mem_ofSource {t : Toolchain} {language text : String} {d : Declaration} :
    d ∈ ofSource t (some text) language ↔ Text.allBlank text = false ∧
      ∃ root, t.parse language text = .tree root ∧ d ∈ ofRoot (t.registry.get? language) root := by
  cases written : Text.allBlank text with
  | true => simp [ofSource, Option.filter_some, written]
  | false => cases parsed : t.parse language text <;> simp [ofSource, Option.filter_some, written, parsed]

theorem mem_ofRoot {root : Node} {d : Declaration} :
    d ∈ ofRoot (some l) root ↔ ∃ n ∈ root.children, d ∈ declared l n := List.mem_flatMap

/-- If no child of a root is empty, a declaration lacks a name just if an empty text is taken for it as it stands. This
is a text below the child that declares, so a tree without empty nodes gives every declaration a name, and in most
languages every tree does. -/
theorem ofSource_unnamed_iff {t : Toolchain} (standard : t.registry = .standard) (known : l ∈ Catalog.languages)
    {text : String} (solid : ∀ root, t.parse l.id text = .tree root → ∀ n ∈ root.children, n.text ≠ "") :
    let declarations := ofSource t (some text) l.id
    ((∃ d ∈ declarations, d.name = "") ↔ Text.allBlank text = false ∧ ∃ root, t.parse l.id text = .tree root ∧
        ∃ n ∈ root.children, ∃ m, TakesFrom l n m ∧ m.text = "") ∧
      ((∀ root, t.parse l.id text = .tree root → ∀ m ∈ preorderAll root.children, m.text ≠ "") →
        ∀ d ∈ declarations, d.name ≠ "") ∧
      (l.id ∉ unchecked → ∀ d ∈ declarations, d.name ≠ "") := by
  intro declarations
  have unnamed : (∃ d ∈ declarations, d.name = "") ↔ Text.allBlank text = false ∧ ∃ root,
      t.parse l.id text = .tree root ∧ ∃ n ∈ root.children, ∃ m, TakesFrom l n m ∧ m.text = "" := by
    simp only [declarations, mem_ofSource, standard, get?_standard known, mem_ofRoot]
    constructor
    · rintro ⟨d, ⟨written, root, parsed, n, child, declares⟩, empty⟩
      have takes := (declared_unnamed_iff known (solid root parsed n child)).mp ⟨d, declares, empty⟩
      exact ⟨written, root, parsed, n, child, takes⟩
    · rintro ⟨written, root, parsed, n, child, takes⟩
      obtain ⟨d, declares, empty⟩ := (declared_unnamed_iff known (solid root parsed n child)).mpr takes
      exact ⟨d, ⟨written, root, parsed, n, child, declares⟩, empty⟩
  refine ⟨unnamed, fun wide d member empty => ?_, fun checked d member empty => ?_⟩
  · obtain ⟨-, root, parsed, n, child, m, takes, narrow⟩ := unnamed.mp ⟨d, member, empty⟩
    exact wide root parsed m (mem_preorderAll.mpr ⟨n, child, mem_preorder_of_takesFrom takes⟩) narrow
  · obtain ⟨-, root, parsed, n, child, m, takes, narrow⟩ := unnamed.mp ⟨d, member, empty⟩
    exact ne_empty_of_takesFrom known checked (solid root parsed n child) takes narrow

def parsing (root : Node) : Toolchain := ⟨.standard, .everything, fun _ _ => .tree root⟩

def go : Language := ⟨"go", [".go"], ⟨"tree_sitter_go", "language"⟩, Catalog.goRules, [], "go"⟩

def leftOut (type role : String) : Node := ⟨type, true, some role, "", 1, 1, []⟩

def variableGroup : Node :=
  ⟨"var_declaration", true, none, "var (a, = 1)", 1, 1, [
    ⟨"var_spec_list", true, none, "(a, = 1)", 1, 1, [
      ⟨"var_spec", true, none, "a, = 1", 1, 1, [
        ⟨"identifier", true, some "name", "a", 1, 1, []⟩, leftOut "identifier" "name"]⟩]⟩]⟩

theorem ofSource_unnamed_iff_group :
    let root : Node := ⟨"source_file", true, none, "var (a, = 1)", 1, 1, [variableGroup]⟩
    let t := parsing root
    (t.registry = .standard ∧ go ∈ Catalog.languages ∧
      ∀ r, t.parse go.id "var (a, = 1)" = .tree r → ∀ n ∈ r.children, n.text ≠ "") ∧
      ∃ d ∈ ofSource t (some "var (a, = 1)") go.id, d.name = "" := by
  intro root t
  have known : go ∈ Catalog.languages := by simp [Catalog.languages, go]
  have parsed : t.parse go.id "var (a, = 1)" = .tree root := rfl
  have solid : ∀ r, t.parse go.id "var (a, = 1)" = .tree r → ∀ n ∈ r.children, n.text ≠ "" := by
    intro r same
    obtain rfl := Parse.tree.inj (parsed.symm.trans same)
    simp [root, variableGroup]
  refine ⟨⟨rfl, known, solid⟩, ?_⟩
  refine (ofSource_unnamed_iff rfl known solid).1.mpr ⟨by decide +kernel, root, parsed, ?_⟩
  refine ⟨variableGroup, .head _, leftOut "identifier" "name", ?_, rfl⟩
  exact ⟨_, _, rfl, rfl, .listedSpec (.head _) (.head _) (.tail _ (.head _))⟩

def ofInt (type text : String) : Node :=
  ⟨type, true, none, text, 1, 1, [
    ⟨"primitive_type", true, some "type", "int", 1, 1, []⟩, leftOut "type_identifier" "declarator"]⟩

/-- A type definition without the new name declares an empty one, where a variable without a name is passed over. -/
theorem typedef_unnamed :
    let types : Node := ⟨"translation_unit", true, none, "typedef int;", 1, 1, [ofInt "type_definition" "typedef int;"]⟩
    let values : Node := ⟨"translation_unit", true, none, "int;", 1, 1, [ofInt "declaration" "int;"]⟩
    (∀ n ∈ types.children, n.text ≠ "") ∧
      ofSource (parsing types) (some "typedef int;") "c" = [⟨"", .classLike, "typedef int;", 1⟩] ∧
      ofSource (parsing values) (some "int;") "c" = [] := by
  intro types values
  exact ⟨by simp [types, ofInt], by decide +kernel, by decide +kernel⟩

end Extraction
end ChangeLens
