import ChangeLens.Text.Quoted
import ChangeLens.Text.Split

/-! JSON values with members in a fixed order, and their text over several lines in ASCII alone. -/
namespace ChangeLens

inductive JsonValue where
  | null
  | number (value : Int)
  | text (value : String)
  | array (items : List JsonValue)
  | object (members : List (String × JsonValue))

namespace JsonValue

/-- The 16-bit units of a character: one, or two beyond the first 65536 code points. -/
def units16 (c : Char) : List Nat :=
  let n := c.toNat
  if n < 0x10000 then [n] else [0xd800 + (n - 0x10000) / 0x400, 0xdc00 + (n - 0x10000) % 0x400]

def escape (c : Char) : List Char :=
  if c = '"' then ['\\', '"']
  else if c = '\\' then ['\\', '\\']
  else if c = '\n' then ['\\', 'n']
  else if c = '\r' then ['\\', 'r']
  else if c = '\t' then ['\\', 't']
  else if c = '\x08' then ['\\', 'b']
  else if c = '\x0c' then ['\\', 'f']
  else if 32 ≤ c.toNat ∧ c.toNat < 127 then [c]
  else (units16 c).flatMap fun unit => ['\\', 'u'] ++ Text.hexDigits 4 unit

def literal (s : String) : String := .ofList ('"' :: s.toList.flatMap escape ++ ['"'])

def newLine (level : Nat) : String := "\n" ++ .ofList (List.replicate (2 * level) ' ')

/-- Items between brackets, each on a line of its own. Without items the brackets stand together. -/
def enclose (opening closing : String) (level : Nat) (items : List String) : String :=
  if items.isEmpty then opening ++ closing
  else opening ++ newLine (level + 1) ++ Text.joinWith ("," ++ newLine (level + 1)) items ++
    newLine level ++ closing

mutual

def layout (level : Nat) : JsonValue → String
  | null => "null"
  | number value => toString value
  | text value => literal value
  | array items => enclose "[" "]" level (layoutItems (level + 1) items)
  | object members => enclose "\x7b" "\x7d" level (layoutMembers (level + 1) members)

def layoutItems (level : Nat) : List JsonValue → List String
  | [] => []
  | v :: vs => layout level v :: layoutItems level vs

def layoutMembers (level : Nat) : List (String × JsonValue) → List String
  | [] => []
  | (k, v) :: rest => (literal k ++ ": " ++ layout level v) :: layoutMembers level rest

end

def ofOption (f : α → JsonValue) : Option α → JsonValue
  | some x => f x
  | none => null

def texts (xs : List String) : JsonValue := array (xs.map text)

end JsonValue
end ChangeLens
