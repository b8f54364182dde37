import ChangeLens.ControlFlow.Annotation
import ChangeLens.Proofs.Syntax.Markup
import ChangeLens.Proofs.Syntax.Regrown

/-! When a branch leaves the function that it stands in. An exit counts if no function below the top of the branch lies
on the way to it; so what is inside such a function does not matter, and may be replaced by anything. -/
namespace ChangeLens.ControlFlow

open ChangeLens.Node

/-- A node below the top, on the way to a place or at it, is one that shelters. -/
def Sheltered (shelters : Node → Bool) (top : Node) (place : Place) : Prop :=
  ∃ way, way ≠ [] ∧ way <:+ place ∧ ∃ n, top.at? way = some n ∧ shelters n = true

/-- The place holds an exit: a node that is one, or a call of what ends the program. -/
def ExitAt (top : Node) (place : Place) : Prop :=
  ∃ n, top.at? place = some n ∧ (n.type ∈ exitTypes ∨ n.type ∈ callTypes ∧ callee n ∈ exitCalls)

/-- The branch of an `if` is its consequence, or its body where the grammar has no such role. -/
def branch? (n : Node) : Option Node := (n.child? "consequence").or (n.child? "body")

variable {n top : Node}

theorem sheltered_concat {shelters : Node → Bool} {place : Place} {i : Nat} (here : top.children[i]? = some n) :
    Sheltered shelters top (place ++ [i]) ↔ shelters n = true ∨ Sheltered shelters n place := by
  constructor
  · rintro ⟨way, below, suffix, m, found, shelters⟩
    rcases List.suffix_concat_iff.mp suffix with rfl | ⟨rest, rfl, inner⟩
    · exact absurd rfl below
    · rw [at?_concat, here, Option.bind_some] at found
      rcases rest with _ | ⟨j, rest⟩
      · obtain rfl := Option.some.inj found
        exact .inl shelters
      · exact .inr ⟨_, List.cons_ne_nil j rest, inner, m, found, shelters⟩
  · rintro (shelters | ⟨way, -, suffix, m, found, shelters⟩)
    · exact ⟨[i], by simp, List.suffix_append _ _, n, by simp [at?, here], shelters⟩
    · refine ⟨way ++ [i], by simp, ?_, m, by rw [at?_concat, here, Option.bind_some, found], shelters⟩
      obtain ⟨before, rfl⟩ := suffix
      exact ⟨before, by simp⟩

theorem exitAt_concat {place : Place} {i : Nat} (here : top.children[i]? = some n) :
    ExitAt top (place ++ [i]) ↔ ExitAt n place := by
  simp [ExitAt, at?_concat, here]

theorem isExit_iff : isExit n = true ↔ n.type ∈ exitTypes ∨ n.type ∈ callTypes ∧ callee n ∈ exitCalls := by
  simp [isExit]

theorem exitAt_nil : ExitAt n [] ↔ isExit n = true := by
  simp [ExitAt, at?, isExit_iff]

theorem anyExitsEarly_eq (ns : List Node) : anyExitsEarly ns = ns.any fun n => !isFunction n && exitsEarly n := by
  induction ns with
  | nil => rfl
  | cons n ns ih => rw [anyExitsEarly, ih, List.any_cons]

theorem exitsEarly_eq (n : Node) :
    exitsEarly n = (isExit n || n.children.any fun c => !isFunction c && exitsEarly c) := by
  cases n
  rw [exitsEarly, anyExitsEarly_eq]

/-- The search finds the exits to which a way leads past no function. -/
theorem exitsEarly_iff : exitsEarly top = true ↔ ∃ place, ExitAt top place ∧ ¬Sheltered isFunction top place := by
  induction top using Node.induction with
  | step top ih =>
    rw [exitsEarly_eq, Bool.or_eq_true, List.any_eq_true]
    constructor
    · rintro (exit | ⟨c, child, outside⟩)
      · refine ⟨[], exitAt_nil.mpr exit, ?_⟩
        rintro ⟨way, below, suffix, -⟩
        exact below (List.suffix_nil.mp suffix)
      · obtain ⟨plain, leaves⟩ := Bool.and_eq_true_iff.mp outside
        obtain ⟨place, exit, free⟩ := (ih c child).mp leaves
        obtain ⟨i, here⟩ := List.mem_iff_getElem?.mp child
        refine ⟨place ++ [i], (exitAt_concat here).mpr exit, ?_⟩
        rw [sheltered_concat here]
        rintro (function | sheltered)
        · simp [function] at plain
        · exact free sheltered
    · rintro ⟨place, exit, free⟩
      rcases List.eq_nil_or_concat' place with rfl | ⟨place, i, rfl⟩
      · exact .inl (exitAt_nil.mp exit)
      · cases here : top.children[i]? with
        | none => simp [ExitAt, at?_concat, here] at exit
        | some c =>
          rw [sheltered_concat here, not_or] at free
          have child := List.mem_of_getElem? here
          have leaves := (ih c child).mpr ⟨place, (exitAt_concat here).mp exit, free.2⟩
          exact .inr ⟨c, child, by simp [leaves, free.1]⟩

theorem textAt?_eq (n : Node) (field : String) :
    n.textAt? field = ((n.children.map outline).find? (·.field == some field)).map (·.text) := by
  rw [textAt?, child?, List.find?_map, Option.map_map]
  rfl

theorem isExit_of_outlines {children : List Node} (same : children.map outline = n.children.map outline) :
    isExit (n.withChildren children) = isExit n := by
  have type : (n.withChildren children).type = n.type := rfl
  have text (field : String) : (n.withChildren children).textAt? field = n.textAt? field := by
    rw [textAt?_eq, textAt?_eq, ← same]
    rfl
  simp [isExit, callee, someTextAt?, text, type]

def seen (n : Node) : Node × Bool := (n.outline, exitsEarly n)

/-- What is seen of a node on the way down. Of a function only the outline counts. -/
def heeded (n : Node) : Node × Bool := (n.outline, !isFunction n && exitsEarly n)

theorem heeded_function (function : isFunction n = true) (children : List Node) :
    heeded (n.withChildren children) = heeded n := by
  have still : isFunction (n.withChildren children) = true := function
  simp [heeded, function, still]

theorem seen_of_heeded {children : List Node} (same : children.map heeded = n.children.map heeded) :
    seen (n.withChildren children) = seen n := by
  have outlines : children.map outline = n.children.map outline := by
    simpa [heeded, Function.comp_def] using congrArg (List.map Prod.fst) same
  have exits : (children.any fun c => !isFunction c && exitsEarly c) =
      n.children.any fun c => !isFunction c && exitsEarly c := by
    simpa [heeded, Function.comp_def] using congrArg (List.any · Prod.snd) same
  refine Prod.ext rfl ?_
  change exitsEarly (n.withChildren children) = exitsEarly n
  rw [exitsEarly_eq, exitsEarly_eq, isExit_of_outlines outlines, ← exits]
  rfl

theorem seen_handed (n : Node) (children : List Node) (same : children.map seen = n.children.map seen) :
    seen (n.withChildren children) = seen n := by
  apply seen_of_heeded
  have known : heeded = (fun s : Node × Bool => (s.1, !isFunction s.1 && s.2)) ∘ seen := rfl
  rw [known, ← List.map_map, same, List.map_map]

/-- What is below a function does not show at the top of a branch. -/
theorem seen_regrown {f : Node} {j i : Nat} {up : Place} (found : top.at? (j :: i :: up) = some f)
    (function : isFunction f = true) (children : List Node) :
    (top.regrown (j :: i :: up) children).children.map seen = top.children.map seen := by
  obtain ⟨parent, foundParent, here⟩ := at?_cons.mp found
  obtain ⟨above, foundAbove, child⟩ := at?_cons.mp foundParent
  rw [regrown_cons foundParent, regrown_cons foundAbove]
  have same : (parent.children.modify j (·.withChildren children)).map heeded = parent.children.map heeded :=
    map_modify_of_getElem? here (heeded_function function children)
  exact map_children_regrown seen_handed foundAbove (map_modify_of_getElem? child (seen_of_heeded same))

theorem describeGuard?_eq (budget : Int) (n : Node) :
    describeGuard? budget n =
      if (branch? n).any exitsEarly then
        (n.someTextAt? "condition").map fun condition => "returns/exits early if " ++ shorten budget condition
      else none := by
  rw [describeGuard?, ← branch?]
  cases branch? n <;> rfl

theorem describeGuard?_of_seen {m : Node} (budget : Int) (same : m.children.map seen = n.children.map seen) :
    describeGuard? budget m = describeGuard? budget n := by
  have outlines : m.children.map outline = n.children.map outline := by
    simpa [seen, Function.comp_def] using congrArg (List.map Prod.fst) same
  have child (n : Node) (field : String) :
      (n.child? field).map seen = (n.children.map seen).find? (·.1.field == some field) := by
    rw [List.find?_map]
    rfl
  have branches (n : Node) : (branch? n).any exitsEarly = ((branch? n).map seen).any (·.2) := by
    cases branch? n <;> rfl
  have exits : (branch? m).any exitsEarly = (branch? n).any exitsEarly := by
    rw [branches, branches, branch?, branch?, Option.map_or, Option.map_or, child, child, child, child, same]
  rw [describeGuard?_eq, describeGuard?_eq, exits, someTextAt?, someTextAt?, textAt?_eq, textAt?_eq, outlines]

theorem describeGuard?_isSome_iff (budget : Int) (n : Node) :
    (describeGuard? budget n).isSome ↔ (∃ condition, n.textAt? "condition" = some condition ∧ condition ≠ "") ∧
      ∃ branch ∈ branch? n, ∃ place, ExitAt branch place ∧ ¬Sheltered isFunction branch place := by
  have condition : (n.someTextAt? "condition").isSome ↔
      ∃ condition, n.textAt? "condition" = some condition ∧ condition ≠ "" := by
    rw [someTextAt?]
    cases n.textAt? "condition" <;> simp
  have exit : (branch? n).any exitsEarly = true ↔
      ∃ branch ∈ branch? n, ∃ place, ExitAt branch place ∧ ¬Sheltered isFunction branch place := by
    simp [Option.any_eq_true, exitsEarly_iff]
  rw [describeGuard?_eq, ← condition, ← exit]
  split <;> simp [*]

def deferring : Node :=
  Markup.root "if_statement" [
    .token "if", .text [' '], .leaf "identifier" (some "condition") ['a'], .text [' '],
    .node "call_expression" true (some "consequence") [
      .leaf "identifier" (some "function") ['r', 'u', 'n'], .text ['('],
      .node "arrow_function" true none [
        .leaf "formal_parameters" (some "parameters") ['(', ')'], .text [' ', '=', '>', ' '],
        .node "return_statement" true (some "body") [.token "return"]], .text [')']]]

end ChangeLens.ControlFlow
