import ChangeLens.Extraction
import ChangeLens.Proofs.Syntax.Unplaced

/-! Declarations hang on the nodes that declare them and on nothing else: each rule reads one child of the root, its
types, roles and texts, and lines only go into the line of a declaration. -/
namespace ChangeLens

open Node

namespace Declaration

def unplaced (d : Declaration) : Declaration := { d with startLine := 0 }

@[simp] theorem name_unplaced (d : Declaration) : d.unplaced.name = d.name := rfl

@[simp] theorem rawText_unplaced (d : Declaration) : d.unplaced.rawText = d.rawText := rfl

end Declaration

namespace Naming

@[simp] theorem nameOrAnonymousIn_unplaced (n : Node) : nameOrAnonymousIn n.unplaced = nameOrAnonymousIn n := by
  simp [nameOrAnonymousIn]

@[simp] theorem nameOf_unplaced (n : Node) : nameOf n.unplaced = nameOf n := by
  simp [nameOf, List.find?_map, Function.comp_def]

@[simp] theorem declaratorName_unplaced (d : Node) : declaratorName d.unplaced = declaratorName d := by
  simp [declaratorName]

@[simp] theorem declaresFunction_unplaced (d : Node) : declaresFunction d.unplaced = declaresFunction d := by
  simp [declaresFunction, Function.comp_def]

@[simp] theorem inSpecGroup_unplaced (spec : String) (list : Option String) (n : Node) :
    inSpecGroup spec list n.unplaced = inSpecGroup spec list n := by
  cases list <;> simp [inSpecGroup, List.flatMap_map, List.flatMap_assoc, Function.comp_def]

@[simp] theorem inValueDeclarators_unplaced (n : Node) : inValueDeclarators n.unplaced = inValueDeclarators n := by
  simp [inValueDeclarators, Function.comp_def]

@[simp] theorem inExport_unplaced (n : Node) : inExport n.unplaced = inExport n := by
  cases declared : n.child? "declaration" <;> simp [inExport, declared]

@[simp] theorem inModuleExports_unplaced (n : Node) : inModuleExports n.unplaced = inModuleExports n := by
  cases first : n.children.head? <;> simp [inModuleExports, first]

@[simp] theorem inAssigned_unplaced (n : Node) : inAssigned n.unplaced = inAssigned n := by
  simp [inAssigned]

@[simp] theorem inAssignedFirst_unplaced (n : Node) : inAssignedFirst n.unplaced = inAssignedFirst n := by
  cases first : n.children.head? <;> simp [inAssignedFirst, first]

@[simp] theorem inReceiverMethod_unplaced (n : Node) : inReceiverMethod n.unplaced = inReceiverMethod n := by
  simp [inReceiverMethod, receiverOf]

@[simp] theorem inImplementation_unplaced (n : Node) : inImplementation n.unplaced = inImplementation n := by
  simp [inImplementation]

@[simp] theorem inFunctionDeclarator_unplaced (n : Node) :
    inFunctionDeclarator n.unplaced = inFunctionDeclarator n := by
  simp [inFunctionDeclarator, Function.comp_def]

@[simp] theorem inDeclarators_unplaced (n : Node) : inDeclarators n.unplaced = inDeclarators n := by
  simp [inDeclarators, List.filterMap_map]

@[simp] theorem inTemplate_unplaced (n : Node) : inTemplate n.unplaced = inTemplate n := by
  simp only [inTemplate, children_unplaced, List.find?_map, Function.comp_def, type_unplaced]
  cases n.children.find? _ with
  | none => rfl
  | some c => simp

@[simp] theorem inLoadCall_unplaced (n : Node) : inLoadCall n.unplaced = inLoadCall n := by
  simp [inLoadCall]

@[simp] theorem elementName_unplaced (n : Node) : elementName n.unplaced = elementName n := by
  simp [elementName, Function.comp_def]

@[simp] theorem inFirstElement_unplaced (type : String) (n : Node) :
    inFirstElement type n.unplaced = inFirstElement type n := by
  simp [inFirstElement, Function.comp_def]

@[simp] theorem inNestedDeclarators_unplaced (n : Node) :
    inNestedDeclarators n.unplaced = inNestedDeclarators n := by
  simp [inNestedDeclarators, List.flatMap_map, List.filterMap_map]

/-- No rule looks at a line. -/
@[simp] theorem find_unplaced (n : Node) (naming : Naming) : find n.unplaced naming = find n naming := by
  cases naming <;> simp [find, List.filterMap_map, Function.comp_def]

end Naming

namespace Extraction

theorem unwrap_unplaced (l : Language) (n : Node) : unwrap l n.unplaced = (unwrap l n).unplaced := by
  simp only [unwrap, type_unplaced, child?_unplaced]
  split <;> simp [Option.getD_map]

theorem declared_unplaced (l : Language) (n : Node) :
    declared l n.unplaced = (declared l n).map Declaration.unplaced := by
  simp only [declared, unwrap_unplaced, type_unplaced]
  cases l.rule? (unwrap l n).type with
  | none => rfl
  | some rule =>
    obtain ⟨kind, naming⟩ := rule
    cases naming <;> simp [Declaration.unplaced]

theorem declaredUntabled_unplaced (n : Node) :
    declaredUntabled n.unplaced = (declaredUntabled n).map Declaration.unplaced := by
  cases named : n.someTextAt? "name" <;> simp [declaredUntabled, named, Declaration.unplaced]

def declaredBy (l : Option Language) : Node → List Declaration := (l.map declared).getD declaredUntabled

theorem declaredBy_unplaced (l : Option Language) (n : Node) :
    declaredBy l n.unplaced = (declaredBy l n).map Declaration.unplaced := by
  cases l with
  | none => exact declaredUntabled_unplaced n
  | some l => exact declared_unplaced l n

def declaring (l : Option Language) (root : Node) : List Node :=
  root.children.filter fun n => !(declaredBy l n).isEmpty

theorem flatMap_filter_isEmpty {α β : Type} (f : α → List β) (xs : List α) :
    (xs.filter fun x => !(f x).isEmpty).flatMap f = xs.flatMap f := by
  induction xs with
  | nil => rfl
  | cons x xs ih =>
    rw [List.filter_cons, List.flatMap_cons, ← ih]
    split
    next => rw [List.flatMap_cons]
    next empty => simp_all

/-- The declarations of a root, lines apart, come from the children that declare something, lines apart. -/
theorem map_unplaced_ofRoot (l : Option Language) (root : Node) :
    (ofRoot l root).map Declaration.unplaced = ((declaring l root).map Node.unplaced).flatMap (declaredBy l) := by
  have kept : ofRoot l root = (declaring l root).flatMap (declaredBy l) :=
    (flatMap_filter_isEmpty (declaredBy l) root.children).symm
  rw [kept, List.map_flatMap, List.flatMap_map]
  simp only [declaredBy_unplaced]

end Extraction
end ChangeLens
