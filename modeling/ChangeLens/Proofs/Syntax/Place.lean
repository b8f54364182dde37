import ChangeLens.Syntax.Span
import Mathlib.Data.List.Basic

/-! Places in a tree. Two nodes of a tree may be alike in everything, so a node is told apart by its place: the
indices of the children that lead to it, the last one first. A span that lies in that of the parent lies in those
of all nodes above it. -/
namespace ChangeLens

abbrev Place := List Nat

namespace Node

/-- What holds of a node as soon as it holds of its children holds of all trees. -/
@[elab_as_elim]
theorem induction {motive : Node → Prop} (step : ∀ n, (∀ c ∈ n.children, motive c) → motive n) :
    ∀ n, motive n
  | ⟨type, named, field, text, startLine, endLine, children⟩ =>
    step ⟨type, named, field, text, startLine, endLine, children⟩ fun c _ => induction step c
termination_by n => sizeOf n
decreasing_by
  have := List.sizeOf_lt_of_mem ‹c ∈ children›
  simp only [mk.sizeOf_spec]
  omega

def at? (root : Node) : Place → Option Node
  | [] => some root
  | i :: up => (root.at? up).bind (·.children[i]?)

theorem at?_cons {root n : Node} {i : Nat} {up : Place} : root.at? (i :: up) = some n ↔
    ∃ parent, root.at? up = some parent ∧ parent.children[i]? = some n := by
  simp [at?, Option.bind_eq_some_iff]

theorem at?_append (root : Node) (down up : Place) :
    root.at? (down ++ up) = (root.at? up).bind (·.at? down) := by
  induction down with
  | nil => simp [at?]
  | cons i down ih => simp [at?, ih, Option.bind_assoc]

theorem at?_concat (root : Node) (down : Place) (i : Nat) :
    root.at? (down ++ [i]) = root.children[i]?.bind (·.at? down) := by
  simp [at?_append, at?]

def above? (root : Node) : Place → Option Node
  | [] => none
  | _ :: up => root.at? up

theorem preorder_eq (n : Node) : n.preorder = n :: preorderAll n.children := by
  cases n; rfl

theorem preorderAll_eq (ns : List Node) : preorderAll ns = ns.flatMap preorder := by
  induction ns with
  | nil => rfl
  | cons n ns ih => rw [preorderAll, ih, List.flatMap_cons]

theorem mem_preorderAll {n : Node} {ns : List Node} : n ∈ preorderAll ns ↔ ∃ m ∈ ns, n ∈ m.preorder := by
  rw [preorderAll_eq, List.mem_flatMap]

theorem mem_preorder {n root : Node} : n ∈ root.preorder ↔ n = root ∨ ∃ c ∈ root.children, n ∈ c.preorder := by
  rw [preorder_eq, List.mem_cons, mem_preorderAll]

theorem mem_preorder_of_child {root n c : Node} (member : n ∈ root.preorder) (child : c ∈ n.children) :
    c ∈ root.preorder := by
  induction root using induction with
  | step root ih =>
    rcases mem_preorder.mp member with rfl | ⟨top, above, below⟩
    · exact mem_preorder.mpr (.inr ⟨c, child, mem_preorder.mpr (.inl rfl)⟩)
    · exact mem_preorder.mpr (.inr ⟨top, above, ih top above below⟩)

theorem mem_preorder_self (n : Node) : n ∈ n.preorder := mem_preorder.mpr (.inl rfl)

theorem mem_preorder_of_mem_children {n c : Node} (child : c ∈ n.children) : c ∈ n.preorder :=
  mem_preorder_of_child (mem_preorder_self n) child

/-- What stands below a node stands below all nodes above it. -/
theorem mem_preorder_trans {root n m : Node} (inner : m ∈ n.preorder) (outer : n ∈ root.preorder) :
    m ∈ root.preorder := by
  induction n using induction with
  | step n ih =>
    rcases mem_preorder.mp inner with rfl | ⟨c, child, below⟩
    · exact outer
    · exact ih c child below (mem_preorder_of_child outer child)

theorem mem_preorder_of_at? {root n : Node} {place : Place} (found : root.at? place = some n) :
    n ∈ root.preorder := by
  induction place generalizing n with
  | nil => exact mem_preorder.mpr (.inl (Option.some.inj found).symm)
  | cons i up ih =>
    obtain ⟨parent, here, child⟩ := at?_cons.mp found
    exact mem_preorder_of_child (ih here) (List.mem_of_getElem? child)

/-- Both ends of the lines of a node lie within the lines of another. -/
def LiesIn (n outer : Node) : Prop :=
  (outer.startLine ≤ n.startLine ∧ n.startLine ≤ outer.endLine) ∧
    outer.startLine ≤ n.endLine ∧ n.endLine ≤ outer.endLine

instance (n outer : Node) : Decidable (n.LiesIn outer) := inferInstanceAs (Decidable ((_ ∧ _) ∧ _ ∧ _))

theorem LiesIn.trans {a b c : Node} (ab : a.LiesIn b) (bc : b.LiesIn c) : a.LiesIn c := by
  unfold LiesIn at *
  omega

/-- Every child lies within the lines of its parent. -/
def Nested (root : Node) : Prop := ∀ n ∈ root.preorder, ∀ c ∈ n.children, c.LiesIn n

theorem Nested.liesIn_of_below {root outer n : Node} {up : Place} (nested : root.Nested)
    (above : root.at? up = some outer) (i : Nat) (below : Place)
    (found : root.at? (i :: (below ++ up)) = some n) : n.LiesIn outer := by
  induction below generalizing i n with
  | nil =>
    obtain ⟨parent, here, child⟩ := at?_cons.mp found
    obtain rfl := Option.some.inj (above.symm.trans here)
    exact nested _ (mem_preorder_of_at? here) _ (List.mem_of_getElem? child)
  | cons j below ih =>
    obtain ⟨parent, here, child⟩ := at?_cons.mp found
    exact (nested _ (mem_preorder_of_at? here) _ (List.mem_of_getElem? child)).trans (ih j here)

theorem nested_of_children {root : Node} (inside : ∀ c ∈ root.children, c.LiesIn root)
    (below : ∀ c ∈ root.children, c.Nested) : root.Nested := by
  intro n member c child
  rcases mem_preorder.mp member with rfl | ⟨top, above, member⟩
  · exact inside c child
  · exact below top above n member c child

end Node

namespace SpanNode

/-- Both ends of the bytes of a node lie within the bytes of another. -/
def LiesIn (n outer : SpanNode) : Prop :=
  (outer.start ≤ n.start ∧ n.start ≤ outer.stop) ∧ outer.start ≤ n.stop ∧ n.stop ≤ outer.stop

/-- Every child lies within the bytes of its parent. -/
inductive Nested : SpanNode → Prop where
  | node (n : SpanNode) : (∀ c ∈ n.children, c.LiesIn n) → (∀ c ∈ n.children, c.Nested) → Nested n

theorem nested_mk {type : String} {named : Bool} {field : Option String} {start stop : Nat}
    {children : List SpanNode} : Nested ⟨type, named, field, start, stop, children⟩ ↔
      (∀ c ∈ children, c.LiesIn ⟨type, named, field, start, stop, children⟩) ∧ ∀ c ∈ children, c.Nested := by
  constructor
  · rintro ⟨-, inside, below⟩
    exact ⟨inside, below⟩
  · rintro ⟨inside, below⟩
    exact .node _ inside below

theorem lineAt_mono (bytes : List UInt8) {a b : Nat} (le : a ≤ b) : lineAt bytes a ≤ lineAt bytes b := by
  have sub : (bytes.take a).Sublist (bytes.take b) := (List.take_prefix_take_left le).sublist
  exact Nat.succ_le_succ (sub.count_le 10)

theorem children_resolve (bytes : List UInt8) (n : SpanNode) :
    (n.resolve bytes).children = n.children.map (resolve bytes) := by
  obtain ⟨type, named, field, start, stop, children⟩ := n
  rw [resolve]
  change resolveAll bytes children = children.map (resolve bytes)
  induction children with
  | nil => rfl
  | cons c cs ih => rw [resolveAll, ih, List.map_cons]

theorem liesIn_resolve (bytes : List UInt8) {n outer : SpanNode} (inside : n.LiesIn outer) :
    (n.resolve bytes).LiesIn (outer.resolve bytes) := by
  obtain ⟨⟨ss, se⟩, es, ee⟩ := inside
  cases n; cases outer
  simp only [resolve]
  exact ⟨⟨lineAt_mono bytes ss, lineAt_mono bytes se⟩, lineAt_mono bytes es, lineAt_mono bytes ee⟩

/-- Spans that are nested by their bytes are nested by their lines. -/
theorem nested_toNode {root : SpanNode} (nested : root.Nested) (source : String) :
    (root.toNode source).Nested := by
  rw [toNode]
  induction nested with
  | node n inside _ ih =>
    refine Node.nested_of_children (fun c member => ?_) fun c member => ?_
    all_goals
      rw [children_resolve] at member
      obtain ⟨s, child, rfl⟩ := List.mem_map.mp member
    · exact liesIn_resolve _ (inside s child)
    · exact ih s child

end SpanNode
end ChangeLens
