import ChangeLens.Syntax.Node
import Mathlib.Data.List.Basic

/-! Texts with their trees marked in them. A tree that is written this way belongs to its text by construction: the
text of a node is what stands between its marks, and its lines are counted from the text before it. -/
namespace ChangeLens

/-- A piece of a text: bare characters, or a node around some pieces. -/
inductive Markup where
  | text (cs : List Char)
  | node (type : String) (named : Bool) (field : Option String) (inside : List Markup)

namespace Markup

mutual

def chars : Markup → List Char
  | text cs => cs
  | node _ _ _ inside => charsOf inside

def charsOf : List Markup → List Char
  | [] => []
  | m :: ms => chars m ++ charsOf ms

end

mutual

/-- The nodes at the top of a piece that begins on a line. -/
def nodes (line : Nat) : Markup → List Node
  | text _ => []
  | node type named field inside =>
    [⟨type, named, field, .ofList (charsOf inside), line, line + (charsOf inside).count '\n', nodesOf line inside⟩]

def nodesOf (line : Nat) : List Markup → List Node
  | [] => []
  | m :: ms => nodes line m ++ nodesOf (line + (chars m).count '\n') ms

end

def token (word : String) : Markup := node word false none [text word.toList]

def leaf (type : String) (field : Option String) (cs : List Char) : Markup := node type true field [text cs]

def root (type : String) (ms : List Markup) : Node :=
  ⟨type, true, none, .ofList (charsOf ms), 1, 1 + (charsOf ms).count '\n', nodesOf 1 ms⟩

@[simp] theorem chars_text (cs : List Char) : (text cs).chars = cs := by rw [chars]

@[simp] theorem chars_node (type : String) (named : Bool) (field : Option String) (inside : List Markup) :
    (node type named field inside).chars = charsOf inside := by rw [chars]

@[simp] theorem charsOf_nil : charsOf [] = [] := by rw [charsOf]

@[simp] theorem charsOf_cons (m : Markup) (ms : List Markup) : charsOf (m :: ms) = m.chars ++ charsOf ms := by
  rw [charsOf]

@[simp] theorem charsOf_append (ms ns : List Markup) : charsOf (ms ++ ns) = charsOf ms ++ charsOf ns := by
  induction ms with
  | nil => simp
  | cons m ms ih => simp [ih]

@[simp] theorem chars_token (word : String) : (token word).chars = word.toList := by simp [token]

@[simp] theorem chars_leaf (type : String) (field : Option String) (cs : List Char) :
    (leaf type field cs).chars = cs := by simp [leaf]

@[simp] theorem nodesOf_nil (line : Nat) : nodesOf line [] = [] := by rw [nodesOf]

@[simp] theorem nodesOf_cons (line : Nat) (m : Markup) (ms : List Markup) :
    nodesOf line (m :: ms) = m.nodes line ++ nodesOf (line + m.chars.count '\n') ms := by rw [nodesOf]

@[simp] theorem nodes_text (line : Nat) (cs : List Char) : (text cs).nodes line = [] := by rw [nodes]

@[simp] theorem nodes_node (line : Nat) (type : String) (named : Bool) (field : Option String)
    (inside : List Markup) : (node type named field inside).nodes line =
      [⟨type, named, field, .ofList (charsOf inside), line, line + (charsOf inside).count '\n',
        nodesOf line inside⟩] := by rw [nodes]

theorem nodesOf_append (line : Nat) (ms ns : List Markup) :
    nodesOf line (ms ++ ns) = nodesOf line ms ++ nodesOf (line + (charsOf ms).count '\n') ns := by
  induction ms generalizing line with
  | nil => simp
  | cons m ms ih => simp [ih, Nat.add_assoc]

theorem charsOf_intercalate (sep : List Markup) (parts : List (List Markup)) :
    charsOf (sep.intercalate parts) = (charsOf sep).intercalate (parts.map charsOf) := by
  induction parts with
  | nil => simp [List.intercalate]
  | cons part parts ih =>
    cases parts with
    | nil => simp [List.intercalate]
    | cons next parts =>
      rw [List.intercalate_cons_cons] at *
      simpa using ih

/-- What is read from pieces one by one does not depend on what stands between them. -/
theorem flatMap_nodesOf_intercalate {read : Node → List β} {sep : List Markup} {parts : List (List Markup)}
    {found : List Markup → List β} (quiet : ∀ line, (nodesOf line sep).flatMap read = [])
    (each : ∀ part ∈ parts, ∀ line, (nodesOf line part).flatMap read = found part) (line : Nat) :
    (nodesOf line (sep.intercalate parts)).flatMap read = parts.flatMap found := by
  induction parts generalizing line with
  | nil => simp [List.intercalate]
  | cons part parts ih =>
    obtain ⟨here, later⟩ := List.forall_mem_cons.mp each
    cases parts with
    | nil => simpa [List.intercalate] using here line
    | cons next parts =>
      rw [List.intercalate_cons_cons, List.append_assoc, nodesOf_append, nodesOf_append, List.flatMap_append,
        List.flatMap_append, here, quiet, ih later, List.nil_append]
      rfl

end Markup
end ChangeLens
