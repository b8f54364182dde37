import ChangeLens.Syntax.Node
import ChangeLens.Text.Utf8

/-! Trees as parsers hand them over: nodes that know only the bytes they span. Together with the bytes of
the source they give the nodes of `ChangeLens.Node`. -/
namespace ChangeLens

structure SpanNode where
  type : String
  named : Bool
  field : Option String
  start : Nat
  stop : Nat
  children : List SpanNode

namespace SpanNode

/-- The line that holds the byte at `offset`, counted from one. -/
def lineAt (bytes : List UInt8) (offset : Nat) : Nat := (bytes.take offset).count 10 + 1

/-- The text of a span. A span may cut a character; what is left of it is shown as unreadable. -/
def textBetween (bytes : List UInt8) (start stop : Nat) : String :=
  Text.decode ((bytes.take stop).drop start)

mutual

def resolve (bytes : List UInt8) : SpanNode → Node
  | ⟨type, named, field, start, stop, children⟩ =>
    ⟨type, named, field, textBetween bytes start stop, lineAt bytes start, lineAt bytes stop,
      resolveAll bytes children⟩

def resolveAll (bytes : List UInt8) : List SpanNode → List Node
  | [] => []
  | n :: ns => resolve bytes n :: resolveAll bytes ns

end

def toNode (root : SpanNode) (source : String) : Node := root.resolve source.toUTF8.toList

end SpanNode
end ChangeLens
