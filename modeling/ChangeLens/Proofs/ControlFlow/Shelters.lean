import ChangeLens.Language.Naming
import ChangeLens.Proofs.ControlFlow.Attribution
import ChangeLens.Proofs.ControlFlow.Exits
import ChangeLens.Proofs.Syntax.Markup

/-! Exits inside of function values. The walk over functions knows all function values but one, the generator
functions: these are no functions to it. So an exit in one of them is taken for one of the function around it, and they
are never analysed on their own. -/
namespace ChangeLens.ControlFlow

variable {root : Node} {budget : Int} {lines changed : List Int} {n : Node} {s : Spot}

/-- The functions that notes are made for: those that hold a changed line. -/
def analysed (changed : List Int) (root : Node) : List Spot :=
  (functionWalk.spots ⟨[], root⟩).filter fun f =>
    touches f.node.startLine f.node.endLine (sortDistinct (· ≤ ·) changed)

theorem map_placed_analysed (changed : List Int) (root : Node) :
    (analysed changed root).map (placed root) = (functions root).filter fun f =>
      touches f.node.startLine f.node.endLine (sortDistinct (· ≤ ·) changed) := by
  rw [functions_eq, List.filter_map]
  rfl

theorem mem_analysed : s ∈ analysed changed root ↔ s.StandsIn root ∧ isFunction s.node = true ∧ Holds changed s.node := by
  rw [analysed, List.mem_filter, Walk.mem_spots_iff fun _ => rfl, touches_sortDistinct_iff, and_assoc]
  rfl

/-- A statement of a function that holds a changed line is an `if`. -/
def Considered (root : Node) (changed : List Int) (s : Spot) : Prop :=
  s.node.type ∈ ifTypes ∧ ∃ f body t, IsBody root f body ∧ Holds changed f.node ∧ t ∈ statements body ∧ target t = s

def GuardNoted (found : List Origin) (s : Spot) : Prop := ∃ o ∈ found, o.target = s ∧ o.note.pattern = .guard

theorem guard_noted_iff {name : String} :
    (∃ note, annotateStatement budget lines name n = some note ∧ note.pattern = .guard) ↔
      (unwrapStatement n).type ∈ ifTypes ∧ (describeGuard? budget (unwrapStatement n)).isSome := by
  rw [annotateStatement]
  by_cases branches : ifTypes.contains (unwrapStatement n).type = true
  · rw [if_pos branches]
    simp [List.contains_iff_mem.mp branches, Option.isSome_iff_exists]
  · rw [if_neg branches]
    rw [List.contains_iff_mem] at branches
    split <;> simp [branches]

theorem guardNoted_origins_iff :
    GuardNoted (origins budget (sortDistinct (· ≤ ·) changed) root) s ↔
      Considered root changed s ∧ (describeGuard? budget s.node).isSome := by
  constructor
  · rintro ⟨o, member, rfl, guard⟩
    obtain ⟨body, t, b, listed, same, touched, noted⟩ := exists_of_mem_origins member
    obtain ⟨branches, described⟩ := guard_noted_iff.mp ⟨o.note, noted, guard⟩
    rw [← node_target, ← same] at branches described
    exact ⟨⟨branches, o.function, body, t, b, touches_sortDistinct_iff.mp touched, listed, same.symm⟩, described⟩
  · rintro ⟨⟨branches, f, body, t, b, holds, listed, rfl⟩, described⟩
    rw [node_target] at branches described
    obtain ⟨note, noted, guard⟩ := @guard_noted_iff budget (sortDistinct (· ≤ ·) changed) _ (functionName (placed root f))
      |>.mpr ⟨branches, described⟩
    have origin : statementOrigin? budget (sortDistinct (· ≤ ·) changed) root f t = some ⟨f, target t, note⟩ := by
      rw [statementOrigin?, noted, Option.map_some]
    have analysed : f ∈ analysed changed root := mem_analysed.mpr ⟨b.stands, b.functionLike, holds⟩
    refine ⟨⟨f, target t, note⟩, List.mem_flatMap.mpr ⟨f, analysed, ?_⟩, rfl, guard⟩
    rw [functionOrigins, b.body]
    exact List.mem_filterMap.mpr ⟨t, listed, origin⟩

/-- The node is of a type for functions, among those that are walked over or among the values of variables. -/
def takenForFunction (n : Node) : Bool :=
  n.named && (functionTypes.contains n.type || Naming.functionValueTypes.contains n.type)

def isGenerator (n : Node) : Bool := n.named && n.type == "generator_function"

theorem takenForFunction_iff : takenForFunction n = true ↔ isFunction n = true ∨ isGenerator n = true := by
  have values : ∀ type ∈ Naming.functionValueTypes, type ∈ functionTypes ∨ type = "generator_function" := by decide
  have generator : "generator_function" ∈ Naming.functionValueTypes := by decide
  simp only [takenForFunction, isFunction, isGenerator, Bool.and_eq_true, Bool.or_eq_true, List.contains_iff_mem,
    beq_iff_eq, ← and_or_left]
  refine and_congr_right fun _ => ⟨?_, Or.imp_right fun type => type ▸ generator⟩
  rintro (walked | value)
  · exact .inl walked
  · exact values n.type value

/-- A generator function is not walked over. -/
theorem not_isFunction_of_isGenerator (generator : isGenerator n = true) : isFunction n = false := by
  have apart : functionTypes.contains "generator_function" = false := by decide
  have type : n.type = "generator_function" := eq_of_beq (Bool.and_eq_true_iff.mp generator).2
  rw [isFunction, type, apart, Bool.and_false]

theorem Sheltered.cases {p q r : Node → Bool} (split : ∀ n, p n = true → q n = true ∨ r n = true) {top : Node}
    {place : Place} (sheltered : Sheltered p top place) : Sheltered q top place ∨ Sheltered r top place := by
  obtain ⟨way, below, suffix, m, found, shelters⟩ := sheltered
  rcases split m shelters with one | other
  · exact .inl ⟨way, below, suffix, m, found, one⟩
  · exact .inr ⟨way, below, suffix, m, found, other⟩

/-- All exits in the branch of an `if` are inside of nodes below its top that shelter them. -/
def ExitsSheltered (shelters : Node → Bool) (n : Node) : Prop :=
  ∀ branch ∈ branch? n, ∀ place, ExitAt branch place → Sheltered shelters branch place

/-- Which exits inside of functions make guards, and which of these functions are analysed on their own. -/
structure ExitsKeptApart (root : Node) (changed : List Int) (found : List Origin) : Prop where
  /-- Where functions that are walked over shelter all exits, no guard is noted. -/
  silent : ∀ s, ExitsSheltered isFunction s.node → ¬GuardNoted found s
  /-- If all exits are in what is taken for functions, it takes an exit that only generator functions shelter. -/
  noted_iff : ∀ s, ExitsSheltered takenForFunction s.node → (GuardNoted found s ↔
    Considered root changed s ∧ (∃ condition, s.node.textAt? "condition" = some condition ∧ condition ≠ "") ∧
      ∃ branch ∈ branch? s.node, ∃ place, ExitAt branch place ∧ Sheltered isGenerator branch place ∧
        ¬Sheltered isFunction branch place)
  analysed_iff : ∀ s : Spot, s.StandsIn root → takenForFunction s.node = true → Holds changed s.node →
    (s ∈ analysed changed root ↔ isGenerator s.node = false)

theorem exitsKeptApart_origins (budget : Int) (changed : List Int) (root : Node) :
    ExitsKeptApart root changed (origins budget (sortDistinct (· ≤ ·) changed) root) := by
  refine ⟨fun s all noted => ?_, fun s all => ?_, fun s stands taken holds => ?_⟩
  · obtain ⟨-, described⟩ := guardNoted_origins_iff.mp noted
    obtain ⟨-, branch, here, place, exit, free⟩ := (describeGuard?_isSome_iff budget s.node).mp described
    exact free (all branch here place exit)
  · rw [guardNoted_origins_iff, describeGuard?_isSome_iff]
    refine and_congr_right fun _ => and_congr_right fun _ => exists_congr fun branch => and_congr_right fun here =>
      exists_congr fun place => and_congr_right fun exit => (and_iff_right_of_imp fun free => ?_).symm
    exact ((all branch here place exit).cases fun _ => takenForFunction_iff.mp).resolve_left free
  · rw [mem_analysed, ← Bool.not_eq_true]
    constructor
    · rintro ⟨-, function, -⟩ generator
      exact Bool.false_ne_true ((not_isFunction_of_isGenerator generator).symm.trans function)
    · exact fun plain => ⟨stands, (takenForFunction_iff.mp taken).resolve_right plain, holds⟩

/-- Functions that are walked over keep their exits to themselves and are analysed wherever they hold a changed line. Of
what else is taken for a function, neither holds. -/
theorem annotate_keeps_exits_apart (t : Toolchain) (budget : Int) (source : Option String) (language : String)
    (changed : List Int) (parsed : ∀ text ∈ source, t.parse language text = .tree root) :
    let found := origins budget (sortDistinct (· ≤ ·) changed) root
    annotate t budget source language changed = (if source.all Text.allBlank then [] else found.map (·.note)) ∧
      (analysed changed root).map (placed root) = ((functions root).filter fun f =>
        touches f.node.startLine f.node.endLine (sortDistinct (· ≤ ·) changed)) ∧
      ExitsKeptApart root changed found := by
  intro found
  refine ⟨?_, map_placed_analysed changed root, exitsKeptApart_origins budget changed root⟩
  rw [annotate_tree t budget changed parsed, annotateRoot_eq]

theorem exitsSheltered_of_children {shelters : Node → Bool} {branch : Node} (here : branch? n = some branch)
    (plain : isExit branch = false)
    (each : ∀ c ∈ branch.children, shelters c = true ∨ ∀ m ∈ c.preorder, isExit m = false) :
    ExitsSheltered shelters n := by
  intro other found place exit
  obtain rfl := Option.some.inj (here.symm.trans found)
  rcases List.eq_nil_or_concat' place with rfl | ⟨place, i, rfl⟩
  · simp [exitAt_nil.mp exit] at plain
  · cases child : branch.children[i]? with
    | none => simp [ExitAt, Node.at?_concat, child] at exit
    | some c =>
      obtain ⟨m, below, leaves⟩ := (exitAt_concat child).mp exit
      refine (sheltered_concat child).mpr (.inl ((each c (List.mem_of_getElem? child)).resolve_right fun none => ?_))
      exact Bool.false_ne_true ((none m (Node.mem_preorder_of_at? below)).symm.trans (isExit_iff.mpr leaves))

/-- On line 2 an `if` without braces hands on a function value of some type, which returns on line 3. -/
def handing (type : String) : Node :=
  Markup.root "program" [
    .node "function_declaration" true none [
      .token "function", .text [' '], .leaf "identifier" (some "name") ['f'], .token "()",
      .node "statement_block" true (some "body") [
        .token "\x7b", .text ['\n'],
        .node "if_statement" true none [
          .token "if", .text [' '], .leaf "identifier" (some "condition") ['a'], .text ['\n'],
          .node "call_expression" true (some "consequence") [
            .leaf "identifier" (some "function") ['r', 'u', 'n'], .text ['('],
            .node type true none [.token "function", .text [' '], .leaf "return_statement" none "return".toList],
            .text [')']]],
        .text ['\n'], .token "\x7d"]]]

def condition (type : String) : Spot := ⟨[1, 3, 0], ((handing type).at? [1, 3, 0]).get rfl⟩

def handed (type : String) : Spot := ⟨[1, 2, 1, 3, 0], ((handing type).at? [1, 2, 1, 3, 0]).get rfl⟩

def handingSource : String := "function f()\x7b\nif a\nrun(function return)\n\x7d"

def handingTools (type : String) : Toolchain := ⟨.standard, .everything, fun _ _ => .tree (handing type)⟩

theorem annotate_keeps_exits_apart_arrow :
    let root := handing "arrow_function"
    let found := origins 40 (sortDistinct (· ≤ ·) [3]) root
    (∀ text ∈ some handingSource, (handingTools "arrow_function").parse "javascript" text = .tree root) ∧
      ExitsSheltered isFunction (condition "arrow_function").node ∧ ¬GuardNoted found (condition "arrow_function") ∧
      handed "arrow_function" ∈ analysed [3] root := by
  intro root found
  have parsed : ∀ text ∈ some handingSource, (handingTools "arrow_function").parse "javascript" text = .tree root :=
    fun _ _ => rfl
  obtain ⟨-, -, apart⟩ :=
    annotate_keeps_exits_apart (handingTools "arrow_function") 40 (some handingSource) "javascript" [3] parsed
  have sheltered : ExitsSheltered isFunction (condition "arrow_function").node :=
    exitsSheltered_of_children rfl (by decide) (by decide)
  have stands : (handed "arrow_function").StandsIn root := rfl
  have holds : Holds [3] (handed "arrow_function").node := ⟨3, by simp, by decide⟩
  exact ⟨parsed, sheltered, apart.silent _ sheltered, (apart.analysed_iff _ stands (by decide) holds).mpr (by decide)⟩

/-- The exit of a generator function is noted as one of the function around it, and the generator function is not
analysed. -/
theorem generator_exit_noted :
    let type := "generator_function"
    let root := handing type
    type ∈ Naming.functionValueTypes ∧ ExitsSheltered takenForFunction (condition type).node ∧
      GuardNoted (origins 80 (sortDistinct (· ≤ ·) [3]) root) (condition type) ∧
      annotate (handingTools type) 80 (some handingSource) "javascript" [3] =
        [⟨"f", 2, .guard, "returns/exits early if a"⟩] ∧
      ((handed type).StandsIn root ∧ takenForFunction (handed type).node = true ∧ Holds [3] (handed type).node) ∧
      handed type ∉ analysed [3] root := by
  intro type root
  have stands : (handed type).StandsIn root := rfl
  have holds : Holds [3] (handed type).node := ⟨3, by simp, by decide⟩
  have notes : annotateRoot 80 (sortDistinct (· ≤ ·) [3]) root = [⟨"f", 2, .guard, "returns/exits early if a"⟩] := by
    decide +kernel
  have considered : Considered root [3] (condition type) := by
    refine ⟨by decide, ⟨[0], _⟩, ⟨[3, 0], _⟩, condition type, ⟨rfl, by decide, rfl⟩, ⟨3, by simp, by decide⟩, ?_, ?_⟩
    · refine List.mem_flatMap.mpr ⟨condition type, Spot.mem_children.mpr ⟨1, rfl, rfl⟩, ?_⟩
      rw [Walk.spots_eq, if_pos (by decide)]
      exact List.mem_append_left _ (List.mem_singleton_self _)
    · rw [target, if_neg (by decide)]
  refine ⟨by decide, exitsSheltered_of_children rfl (by decide) (by decide), ?_, ?_, ⟨stands, by decide, holds⟩, ?_⟩
  · exact guardNoted_origins_iff.mpr ⟨considered, by decide⟩
  · rw [annotate_tree (handingTools type) 80 [3] fun _ _ => rfl]
    exact notes
  · rw [mem_analysed]
    exact fun listed => absurd listed.2.1 (by decide)

end ChangeLens.ControlFlow
