import ChangeLens.Proofs.ControlFlow.Lines
import ChangeLens.Proofs.ControlFlow.Spots
import Mathlib.Data.List.Nodup

/-! Where notes come from. Every note is about a guard or a try block inside a function that holds a changed line.
As long as no function is the body of another, no guard and no try block is noted twice, however functions,
containers and expression statements are nested. -/
namespace ChangeLens.ControlFlow

variable {root : Node}

def target (s : Spot) : Spot :=
  if s.node.type == "expression_statement" then
    match (s.children.filter (·.node.named)).head? with
    | some inner => if ifTypes.contains inner.node.type then inner else s
    | none => s
  else s

theorem node_target (s : Spot) : (target s).node = unwrapStatement s.node := by
  have named : s.node.namedChildren.head? = (s.children.filter (·.node.named)).head?.map (·.node) := by
    rw [Node.namedChildren, ← Spot.map_node_children, List.filter_map, List.head?_map]
    rfl
  rw [target, unwrapStatement, named]
  split
  next =>
    cases (s.children.filter (·.node.named)).head? with
    | none => rfl
    | some inner =>
      simp only [Option.map_some]
      split <;> rfl
  next => rfl

theorem target_cases (s : Spot) :
    target s = s ∨ s.node.type = "expression_statement" ∧ target s ∈ s.children := by
  rw [target]
  split
  next expression =>
    split
    next inner found =>
      split
      · exact .inr ⟨eq_of_beq expression, List.mem_of_mem_filter (List.mem_of_mem_head? found)⟩
      · exact .inl rfl
    next => exact .inl rfl
  next => exact .inl rfl

/-- A note with the function and the statement that it is made for. -/
structure Origin where
  function : Spot
  target : Spot
  note : Annotation

section

variable (budget : Int) (lines : List Int) (root : Node)

def statementOrigin? (f s : Spot) : Option Origin :=
  (annotateStatement budget lines (functionName (placed root f)) s.node).map (⟨f, target s, ·⟩)

def functionOrigins (f : Spot) : List Origin :=
  match f.child? "body" with
  | none => []
  | some body => (statements body).filterMap (statementOrigin? budget lines root f)

def origins : List Origin :=
  ((functionWalk.spots ⟨[], root⟩).filter fun f => touches f.node.startLine f.node.endLine lines).flatMap
    (functionOrigins budget lines root)

theorem annotateFunction_eq (f : Spot) :
    annotateFunction budget lines (placed root f) = (functionOrigins budget lines root f).map (·.note) := by
  have node : (placed root f).node = f.node := rfl
  rw [annotateFunction, node, ← Spot.map_node_child?, functionOrigins]
  cases f.child? "body" with
  | none => rfl
  | some body =>
    simp only [Option.map_some]
    rw [bodyStatements_eq, List.filterMap_map, List.map_filterMap]
    refine List.filterMap_congr fun s _ => ?_
    rw [statementOrigin?, Option.map_map]
    exact Option.map_id'.symm

theorem annotateRoot_eq : annotateRoot budget lines root = (origins budget lines root).map (·.note) := by
  rw [annotateRoot, functions_eq, List.filter_map, List.flatMap_map, origins, List.map_flatMap]
  exact List.flatMap_congr fun f _ => annotateFunction_eq budget lines root f

end

variable {budget : Int} {lines : List Int} {f g body other s t : Spot} {o : Origin}

theorem IsBody.of_listed (listed : f ∈ functionWalk.spots ⟨[], root⟩) (found : f.child? "body" = some body) :
    IsBody root f body := by
  have top : (⟨[], root⟩ : Spot).StandsIn root := rfl
  have functionLike := (Walk.of_mem_spots (P := fun _ => True) (fun _ _ _ _ _ => trivial) trivial listed).1
  exact ⟨Walk.standsIn_of_mem_spots top listed, functionLike, found⟩

theorem exists_of_mem_functionOrigins (member : o ∈ functionOrigins budget lines root f) :
    ∃ body s, f.child? "body" = some body ∧ s ∈ statements body ∧
      statementOrigin? budget lines root f s = some o := by
  rw [functionOrigins] at member
  split at member
  next => exact absurd member List.not_mem_nil
  next body found =>
    obtain ⟨s, listed, origin⟩ := List.mem_filterMap.mp member
    exact ⟨body, s, found, listed, origin⟩

/-- A note is about a guard, or about a try block around one of the lines. -/
theorem annotateStatement_cases {name : String} {n : Node} {note : Annotation}
    (noted : annotateStatement budget lines name n = some note) :
    note.functionName = name ∧ note.line = (unwrapStatement n).startLine ∧
      (note.pattern = .guard ∧ (unwrapStatement n).type ∈ ifTypes ∨
        note.pattern = .tryCatch ∧ isTry (unwrapStatement n) = true ∧
          touches (unwrapStatement n).startLine (unwrapStatement n).endLine lines = true) := by
  rw [annotateStatement] at noted
  split at noted
  next branches =>
    obtain ⟨description, -, rfl⟩ := Option.map_eq_some_iff.mp noted
    exact ⟨rfl, rfl, .inl ⟨rfl, List.contains_iff_mem.mp branches⟩⟩
  next =>
    split at noted
    next tries =>
      obtain rfl := Option.some.inj noted
      exact ⟨rfl, rfl, .inr ⟨rfl, Bool.and_eq_true_iff.mp tries⟩⟩
    next => contradiction

def Holds (changed : List Int) (n : Node) : Prop := ∃ line ∈ changed, n.startLine ≤ line ∧ line ≤ n.endLine

/-- What a note says about its function and its statement. -/
structure Attributed (root : Node) (changed : List Int) (o : Origin) : Prop where
  function : o.function.StandsIn root
  functionLike : isFunction o.function.node = true
  holds : Holds changed o.function.node
  name : o.note.functionName = functionName (placed root o.function)
  target : o.target.StandsIn root
  below : ∃ i below, o.target.place = i :: (below ++ o.function.place)
  line : o.note.line = o.target.node.startLine
  within : o.function.node.startLine ≤ o.note.line ∧ o.note.line ≤ o.function.node.endLine
  kind : o.note.pattern = .guard ∧ o.target.node.type ∈ ifTypes ∨
    o.note.pattern = .tryCatch ∧ isTry o.target.node = true ∧ Holds changed o.target.node

theorem IsBody.statement_under (b : IsBody root f body) (listed : s ∈ statements body) :
    s.StandsIn root ∧ ∃ i up, s.place = i :: up ∧ statementWalk.Under root body.place up :=
  (Walk.of_mem_below b.body_stands listed).2

/-- The statement of a body stands below the function. -/
theorem IsBody.target_below (b : IsBody root f body) (listed : s ∈ statements body) :
    (target s).StandsIn root ∧ ∃ i below, (target s).place = i :: (below ++ f.place) := by
  obtain ⟨stands, i, up, place, under⟩ := b.statement_under listed
  obtain ⟨j, bodyPlace⟩ := b.place
  obtain ⟨below, rfl⟩ := under.suffix
  rw [bodyPlace] at place
  have here : s.place = i :: ((below ++ [j]) ++ f.place) := by simpa using place
  rcases target_cases s with same | ⟨-, child⟩
  · rw [same]
    exact ⟨stands, i, below ++ [j], here⟩
  · obtain ⟨k, childPlace, -⟩ := Spot.mem_children.mp child
    refine ⟨stands.child child, k, i :: (below ++ [j]), ?_⟩
    rw [childPlace, here]
    rfl

theorem exists_of_mem_origins (member : o ∈ origins budget lines root) :
    ∃ body s, IsBody root o.function body ∧ s ∈ statements body ∧ o.target = target s ∧
      touches o.function.node.startLine o.function.node.endLine lines = true ∧
      annotateStatement budget lines (functionName (placed root o.function)) s.node = some o.note := by
  obtain ⟨f, listed, member⟩ := List.mem_flatMap.mp member
  obtain ⟨listed, touched⟩ := List.mem_filter.mp listed
  obtain ⟨body, s, found, statement, origin⟩ := exists_of_mem_functionOrigins member
  obtain ⟨note, noted, rfl⟩ := Option.map_eq_some_iff.mp origin
  exact ⟨body, s, .of_listed listed found, statement, rfl, touched, noted⟩

theorem attributed_of_mem_origins (nested : root.Nested) {changed : List Int}
    (member : o ∈ origins budget (sortDistinct (· ≤ ·) changed) root) : Attributed root changed o := by
  obtain ⟨body, s, b, statement, isTarget, touched, noted⟩ := exists_of_mem_origins member
  obtain ⟨name, line, kind⟩ := annotateStatement_cases noted
  obtain ⟨stands, i, below, place⟩ := b.target_below statement
  rw [← node_target, ← isTarget] at line kind
  rw [← isTarget] at stands place
  have inside : o.target.node.LiesIn o.function.node :=
    nested.liesIn_of_below b.stands i below (place ▸ stands)
  refine ⟨b.stands, b.functionLike, touches_sortDistinct_iff.mp touched, name, stands, ⟨i, below, place⟩, line, ?_, ?_⟩
  · rw [line]
    exact ⟨Int.ofNat_le.mpr inside.1.1, Int.ofNat_le.mpr inside.1.2⟩
  · exact kind.imp_right fun ⟨pattern, tries, touched⟩ => ⟨pattern, tries, touches_sortDistinct_iff.mp touched⟩

/-- What an expression statement holds is no statement of its own. -/
theorem IsBody.not_under_expression (apart : BodiesApart root) (b : IsBody root f body) (c : IsBody root g other)
    (listed : t ∈ statements other) (expression : t.node.type = "expression_statement") :
    ¬statementWalk.Under root body.place t.place := by
  obtain ⟨stands, j, up, place, under⟩ := c.statement_under listed
  obtain ⟨i, bodyPlace⟩ := b.place
  intro into
  generalize at_ : t.place = p at into
  cases into with
  | top =>
    -- The expression statement would be the body of `f`, and `f` would stand among the statements of `g`.
    obtain ⟨rfl, rfl⟩ := List.cons.inj (place.symm.trans (at_.trans bodyPlace))
    exact absurd under (c.not_under_owner apart b)
  | entered _ found enters =>
    rw [← at_] at found
    obtain rfl := Option.some.inj (stands.symm.trans found)
    have : containerTypes.contains t.node.type = false := by
      rw [expression]
      decide
    change (t.node.named && containerTypes.contains t.node.type) = true at enters
    rw [this, Bool.and_false] at enters
    exact absurd enters Bool.false_ne_true

theorem IsBody.place_ne_inner (apart : BodiesApart root) (b : IsBody root f body) (c : IsBody root g other)
    (left : s ∈ statements body) (right : t ∈ statements other) (expression : t.node.type = "expression_statement")
    {inner : Spot} (child : inner ∈ t.children) : s.place ≠ inner.place := by
  obtain ⟨-, i, up, place, under⟩ := b.statement_under left
  obtain ⟨j, innerPlace, -⟩ := Spot.mem_children.mp child
  intro same
  obtain ⟨-, rfl⟩ := List.cons.inj (place.symm.trans (same.trans innerPlace))
  exact b.not_under_expression apart c right expression under

theorem IsBody.statement_unique (apart : BodiesApart root) (b : IsBody root f body) (c : IsBody root g other)
    (left : s ∈ statements body) (right : t ∈ statements other) (same : s.place = t.place) : f.place = g.place := by
  obtain ⟨-, i, up, place, under⟩ := b.statement_under left
  obtain ⟨-, j, vp, otherPlace, otherUnder⟩ := c.statement_under right
  obtain ⟨-, rfl⟩ := List.cons.inj (place.symm.trans (same.trans otherPlace))
  exact b.unique apart c under otherUnder

/-- A node is the target of one statement only, and a statement of one function only. -/
theorem IsBody.target_unique (apart : BodiesApart root) (b : IsBody root f body) (c : IsBody root g other)
    (left : s ∈ statements body) (right : t ∈ statements other)
    (same : (target s).place = (target t).place) : f.place = g.place ∧ s.place = t.place := by
  have statement : s.place = t.place := by
    rcases target_cases s with direct | ⟨expression, inner⟩
    · rcases target_cases t with otherDirect | ⟨otherExpression, otherInner⟩
      · rwa [direct, otherDirect] at same
      · rw [direct] at same
        exact absurd same (b.place_ne_inner apart c left right otherExpression otherInner)
    · rcases target_cases t with otherDirect | ⟨otherExpression, otherInner⟩
      · rw [otherDirect] at same
        exact absurd same.symm (c.place_ne_inner apart b right left expression inner)
      · obtain ⟨i, place, -⟩ := Spot.mem_children.mp inner
        obtain ⟨j, otherPlace, -⟩ := Spot.mem_children.mp otherInner
        exact (List.cons.inj (place.symm.trans (same.trans otherPlace))).2
  exact ⟨b.statement_unique apart c left right statement, statement⟩

theorem statementOrigin?_target (origin : statementOrigin? budget lines root f s = some o) :
    o.target = target s := by
  obtain ⟨note, -, rfl⟩ := Option.map_eq_some_iff.mp origin
  rfl

theorem nodup_targets (apart : BodiesApart root) : ((origins budget lines root).map (·.target.place)).Nodup := by
  have functions : (functionWalk.spots ⟨[], root⟩).Pairwise fun f g => f.place ≠ g.place :=
    (Walk.pairwise_spots functionWalk ⟨[], root⟩).imp Place.Before.ne
  rw [origins, List.map_flatMap]
  refine List.nodup_flatMap.mpr ⟨fun f listed => ?_, (functions.filter _).imp_of_mem fun {f g} mf mg distinct => ?_⟩
  · have listed := List.mem_of_mem_filter listed
    cases found : f.child? "body" with
    | none => simp [functionOrigins, found]
    | some body =>
      have b : IsBody root f body := .of_listed listed found
      have apartStatements : (statements body).Pairwise fun s t => s.place ≠ t.place :=
        (pairwise_statements body).imp Place.Before.ne
      simp only [functionOrigins, found]
      refine List.pairwise_map.mpr (List.pairwise_filterMap.mpr (apartStatements.imp_of_mem ?_))
      intro s t ms mt distinct o origin p other same
      rw [statementOrigin?_target origin, statementOrigin?_target other] at same
      exact distinct (b.target_unique apart b ms mt same).2
  · intro place inF inG
    obtain ⟨o, fromF, rfl⟩ := List.mem_map.mp inF
    obtain ⟨p, fromG, same⟩ := List.mem_map.mp inG
    obtain ⟨body, s, found, ms, origin⟩ := exists_of_mem_functionOrigins fromF
    obtain ⟨other, t, otherFound, mt, otherOrigin⟩ := exists_of_mem_functionOrigins fromG
    have b : IsBody root f body := .of_listed (List.mem_of_mem_filter mf) found
    have c : IsBody root g other := .of_listed (List.mem_of_mem_filter mg) otherFound
    rw [statementOrigin?_target origin, statementOrigin?_target otherOrigin] at same
    exact distinct (b.target_unique apart c ms mt same.symm).1

theorem annotateRoot_nil (budget : Int) (root : Node) : annotateRoot budget [] root = [] := by
  have untouched (start stop : Int) : touches start stop [] = false := rfl
  rw [annotateRoot]
  simp only [untouched, List.filter_false, List.flatMap_nil]

theorem annotate_tree (t : Toolchain) (budget : Int) {source : Option String} {language : String}
    (changed : List Int) (parsed : ∀ text ∈ source, t.parse language text = .tree root) :
    annotate t budget source language changed =
      if source.all Text.allBlank then [] else annotateRoot budget (sortDistinct (· ≤ ·) changed) root := by
  rw [annotate]
  cases source with
  | none => rfl
  | some text =>
    cases blank : Text.allBlank text with
    | true => simp [Option.filter_some, blank]
    | false =>
      simp only [Option.filter_some, blank, Bool.not_false, if_true, parsed text rfl, Option.all_some,
        Bool.false_eq_true, if_false]
      split
      next empty => rw [List.isEmpty_iff.mp empty, annotateRoot_nil]
      next => rfl

/-- Whatever the source, the notes on it have these origins. -/
theorem annotate_attributed (t : Toolchain) (budget : Int) (source : Option String) (language : String)
    (changed : List Int) (parsed : ∀ text ∈ source, t.parse language text = .tree root) (nested : root.Nested) :
    let found := origins budget (sortDistinct (· ≤ ·) changed) root
    annotate t budget source language changed =
        (if source.all Text.allBlank then [] else found.map (·.note)) ∧
      (∀ o ∈ found, Attributed root changed o) ∧
      (BodiesApart root → (found.map (·.target.place)).Nodup) := by
  intro found
  refine ⟨?_, fun o member => attributed_of_mem_origins nested member, nodup_targets⟩
  rw [annotate_tree t budget changed parsed, annotateRoot_eq]

def guarded : SpanNode :=
  ⟨"source_file", true, none, 0, 28, [
    ⟨"function_item", true, none, 0, 27, [
      ⟨"identifier", true, some "name", 3, 4, []⟩,
      ⟨"block", true, some "body", 7, 27, [
        ⟨"block", true, none, 9, 25, [
          ⟨"expression_statement", true, none, 12, 23, [
            ⟨"if_expression", true, none, 12, 23, [
              ⟨"identifier", true, some "condition", 15, 16, []⟩,
              ⟨"return_expression", true, some "consequence", 17, 23, []⟩]⟩]⟩]⟩]⟩]⟩]⟩

theorem annotate_attributed_guarded :
    let source := "fn f() \x7b \x7b\n if a return \x7d \x7d\n"
    let root := guarded.toNode source
    let tools : Toolchain := ⟨.standard, .everything, fun _ _ => .tree root⟩
    let found := origins 40 (sortDistinct (· ≤ ·) [3, 2]) root
    (∀ text ∈ some source, tools.parse "rust" text = .tree root) ∧ root.Nested ∧ BodiesApart root ∧
      (∀ o ∈ found, Attributed root [3, 2] o) ∧ (found.map (·.target.place)).Nodup := by
  intro source root tools found
  have parsed : ∀ text ∈ some source, tools.parse "rust" text = .tree root := by
    intro text _
    rfl
  have nested : root.Nested := by
    refine SpanNode.nested_toNode ?_ source
    simp [guarded, SpanNode.nested_mk, SpanNode.LiesIn]
  have apart : BodiesApart root := by
    simp [BodiesApart, root, guarded, SpanNode.toNode, SpanNode.resolve, SpanNode.resolveAll, Node.preorder,
      Node.preorderAll, isFunction, functionTypes, Node.child?]
  obtain ⟨-, attributed, distinct⟩ := annotate_attributed tools 40 (some source) "rust" [3, 2] parsed nested
  exact ⟨parsed, nested, apart, attributed, distinct apart⟩

end ChangeLens.ControlFlow
