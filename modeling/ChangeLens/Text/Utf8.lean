/-! Reading bytes as UTF-8 without ever failing. Each longest stretch of bytes that begins a character and
does not finish it becomes one replacement character, and so does each byte that can begin none. -/
namespace ChangeLens.Text

/-- A character of which some bytes have been read: its bits so far, how many bytes are still due, and the
bounds of the next one. The bounds are tighter after a few lead bytes, so that no character has two
encodings and no surrogate or number beyond the last code point is read. -/
structure Partial where
  bits : Nat
  due : Nat
  low : Nat
  high : Nat

inductive Lead where
  | whole (c : Char)
  | unfinished (p : Partial)
  | invalid

def Lead.ofByte (b : UInt8) : Lead :=
  let n := b.toNat
  if n < 0x80 then .whole (Char.ofNat n)
  else if n < 0xc2 then .invalid
  else if n < 0xe0 then .unfinished ⟨n - 0xc0, 1, 0x80, 0xbf⟩
  else if n = 0xe0 then .unfinished ⟨0, 2, 0xa0, 0xbf⟩
  else if n = 0xed then .unfinished ⟨13, 2, 0x80, 0x9f⟩
  else if n < 0xf0 then .unfinished ⟨n - 0xe0, 2, 0x80, 0xbf⟩
  else if n = 0xf0 then .unfinished ⟨0, 3, 0x90, 0xbf⟩
  else if n < 0xf4 then .unfinished ⟨n - 0xf0, 3, 0x80, 0xbf⟩
  else if n = 0xf4 then .unfinished ⟨4, 3, 0x80, 0x8f⟩
  else .invalid

def replacement : Char := '\ufffd'

/-- What has been read so far: the unfinished character, if there is one, and the text before it, last
character first. -/
structure Decoder where
  pending : Option Partial := none
  text : List Char := []

namespace Decoder

/-- Reads a byte where a character begins. -/
def begin (d : Decoder) (b : UInt8) : Decoder :=
  match Lead.ofByte b with
  | .whole c => ⟨none, c :: d.text⟩
  | .unfinished p => ⟨some p, d.text⟩
  | .invalid => ⟨none, replacement :: d.text⟩

/-- Reads one byte more. A byte that does not go on with the unfinished character ends it and begins anew. -/
def read (d : Decoder) (b : UInt8) : Decoder :=
  match d.pending with
  | none => d.begin b
  | some p =>
    if p.low ≤ b.toNat ∧ b.toNat ≤ p.high then
      let bits := 64 * p.bits + (b.toNat - 0x80)
      if p.due = 1 then ⟨none, Char.ofNat bits :: d.text⟩
      else ⟨some ⟨bits, p.due - 1, 0x80, 0xbf⟩, d.text⟩
    else begin ⟨none, replacement :: d.text⟩ b

def finish (d : Decoder) : List Char :=
  (if d.pending.isSome then replacement :: d.text else d.text).reverse

end Decoder

def decodeChars (bytes : List UInt8) : List Char := (bytes.foldl Decoder.read {}).finish

def decode (bytes : List UInt8) : String := .ofList (decodeChars bytes)

/-- Line ends of other systems become line feeds: a carriage return before a line feed goes, one that stands
alone is replaced. -/
def unifyLineEnds (cs : List Char) : List Char :=
  (cs.zip (cs.tail.map some ++ [none])).filterMap fun (c, next) =>
    if c = '\r' then if next = some '\n' then none else some '\n' else some c

def decodeFile (bytes : List UInt8) : String := .ofList (unifyLineEnds (decodeChars bytes))

end ChangeLens.Text
