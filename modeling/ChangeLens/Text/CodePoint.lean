/-! Code points. Texts are made of characters, but an escape may also give half of a surrogate pair, which is
none. -/
namespace ChangeLens.Text

inductive CodePoint where
  | char (c : Char)
  /-- Half of a surrogate pair, by its number. -/
  | half (number : Nat)
  deriving DecidableEq

namespace CodePoint

def ofNat? (n : Nat) : Option CodePoint :=
  if n.isValidChar then some (char (Char.ofNat n)) else if n < 0x110000 then some (half n) else none

def number : CodePoint → Nat
  | char c => c.toNat
  | half n => n

def char? : CodePoint → Option Char
  | char c => some c
  | half _ => none

def chars (ps : List CodePoint) : List Char := ps.filterMap char?

/-- The text that some code points make, if all of them are characters. -/
def text? (ps : List CodePoint) : Option String := (ps.mapM char?).map .ofList

end CodePoint
end ChangeLens.Text
