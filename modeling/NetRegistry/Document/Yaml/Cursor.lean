/-
# Document.Yaml.Cursor -- a position in a YAML text

A cursor is the rest of the text and its length, with the line, the column and the
number of characters before it.  A line ends at a line feed, a carriage return or both, a
next-line, a line separator or a paragraph separator.
-/

namespace NetRegistry.Yaml

set_option autoImplicit false

/-- Whether the character ends a line. -/
def isBreak (c : Char) : Bool :=
  c == '\n' || c == '\r' || c == '\u0085' || c == '\u2028' || c == '\u2029'

/-- Whether the character is a space or a tab. -/
def isSpace (c : Char) : Bool := c == ' ' || c == '\t'

/-- Whether the character may stand in a YAML text. -/
def isAllowed (c : Char) : Bool :=
  let n := c.toNat
  n == 0x09 || n == 0x0A || n == 0x0D || (0x20 ≤ n && n ≤ 0x7E) || n == 0x85 ||
    (0xA0 ≤ n && n ≤ 0xFFFD) || 0x10000 ≤ n

structure Cursor where
  rest : List Char
  /-- Number of characters left, which bounds every loop over them. -/
  left : Nat
  line : Nat
  column : Nat
  index : Nat

namespace Cursor

def start (text : List Char) : Cursor := ⟨text, text.length, 0, 0, 0⟩

variable (c : Cursor)

/-- The character some places ahead. -/
def ahead? (n : Nat) : Option Char := c.rest[n]?

/-- Whether the given character is next. -/
def sees (x : Char) : Bool := c.ahead? 0 == some x

/-- Whether a space, a tab, a line break or the end of the text is some places ahead. -/
def seesBlank (n : Nat) : Bool := (c.ahead? n).all fun x => isSpace x || isBreak x

/-- Past characters of the same line. -/
def skip (n : Nat) : Cursor :=
  ⟨c.rest.drop n, c.left - n, c.line, c.column + n, c.index + n⟩

def skipBreak : Cursor :=
  match c.rest with
  | '\r' :: '\n' :: rest => ⟨rest, c.left - 2, c.line + 1, 0, c.index + 2⟩
  | _ => ⟨c.rest.drop 1, c.left - 1, c.line + 1, 0, c.index + 1⟩

/-- Past the characters up to the end of the line. -/
def skipLine : Cursor := c.skip (c.rest.takeWhile (!isBreak ·)).length

/-- Whether three given characters start the line and stand alone. -/
def seesMarker (x : Char) : Bool :=
  c.column == 0 && c.sees x && c.ahead? 1 == some x && c.ahead? 2 == some x && c.seesBlank 3

/-- Whether the line starts or ends a document. -/
def seesDocumentMarker : Bool := c.seesMarker '-' || c.seesMarker '.'

end Cursor

end NetRegistry.Yaml
