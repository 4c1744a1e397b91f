/-
# Document.Yaml.Scalar -- plain and quoted scalars

A scalar may go over several lines.  Blanks inside a line stand for themselves;
a single line break stands for a space, and of several the first is dropped
(`Gap.text`).  A plain scalar ends before a comment, before a colon that is
followed by a blank, before a line that is not indented enough, and inside
brackets before a bracket or comma.  A quoted scalar ends at its quote: in single
quotes a quote is written twice, in double quotes a backslash starts an escape.
-/
import NetRegistry.Document.Yaml.Cursor
import NetRegistry.Text.Numeral

namespace NetRegistry.Yaml

set_option autoImplicit false

open Text (digitValue?)

/-- Blanks and line breaks between two words of a scalar. -/
structure Gap where
  /-- Blanks before the first line break. -/
  spaces : List Char
  /-- Whether a line has ended. -/
  broken : Bool
  /-- The first line break, as it is kept. -/
  firstBreak : Option Char
  /-- The line breaks after the first. -/
  moreBreaks : List Char

namespace Gap

/-- No blank at all. -/
def empty : Gap := ⟨[], false, none, []⟩

/-- A line break that was escaped: it stands for nothing. -/
def escaped : Gap := ⟨[], true, none, []⟩

/-- The text that the gap stands for. -/
def text (g : Gap) : List Char :=
  if g.broken then
    if g.firstBreak = some '\n' then (if g.moreBreaks.isEmpty then [' '] else g.moreBreaks)
    else g.firstBreak.toList ++ g.moreBreaks
  else g.spaces

/-- How a line break is kept: the two separators as they are, any other as a line feed. -/
def keptBreak (c : Char) : Char := if c == '\u2028' || c == '\u2029' then c else '\n'

def addBreak (g : Gap) (c : Char) : Gap :=
  if g.broken then { g with moreBreaks := g.moreBreaks ++ [keptBreak c] }
  else { g with spaces := [], broken := true, firstBreak := some (keptBreak c) }

/-- Add a blank; one that indents a further line does not count. -/
def addSpace (g : Gap) (c : Char) : Gap :=
  if g.broken then g else { g with spaces := g.spaces ++ [c] }

/-- Read the blanks and line breaks that come next.  A tab may not stand where a further line has to
be indented by `indent` columns. -/
def read? (indent : Int) : (fuel : Nat) → Gap → Cursor → Option (Gap × Cursor)
  | 0, g, c => some (g, c)
  | fuel + 1, g, c =>
      match c.ahead? 0 with
      | none => some (g, c)
      | some x =>
          if isSpace x then
            if g.broken && x == '\t' && (c.column : Int) < indent then none
            else read? indent fuel (g.addSpace x) (c.skip 1)
          else if isBreak x then read? indent fuel (g.addBreak x) c.skipBreak
          else some (g, c)

end Gap

/-! ## Plain scalars -/

/-- Whether the character is a bracket or comma, which ends a plain scalar inside brackets. -/
def isFlowIndicator (c : Char) : Bool :=
  c == ',' || c == '[' || c == ']' || c == '{' || c == '}'

/-- Read the characters of a plain scalar up to a blank or an indicator.  Inside brackets a colon
may not be followed by an indicator. -/
def plainWord? (flow : Bool) : (fuel : Nat) → Cursor → Option (List Char × Cursor)
  | 0, c => some ([], c)
  | fuel + 1, c =>
      match c.ahead? 0 with
      | none => some ([], c)
      | some x =>
          if isSpace x || isBreak x then some ([], c)
          else if flow && x == ':' && (c.ahead? 1).any fun y => isFlowIndicator y || y == '?' then
            none
          else if (x == ':' && c.seesBlank 1) || (flow && isFlowIndicator x) then some ([], c)
          else do
            let (word, c) ← plainWord? flow fuel (c.skip 1)
            return (x :: word, c)

/-- Read the words of a plain scalar, each behind a gap.  The gap after the last one comes out,
since it tells whether a line has ended. -/
def plainWords? (flow : Bool) (indent : Int) :
    (fuel : Nat) → Gap → Cursor → Option (List Char × Gap × Cursor)
  | 0, g, c => some ([], g, c)
  | fuel + 1, g, c =>
      if c.seesDocumentMarker || c.sees '#' then some ([], g, c)
      else do
        let (word, c) ← plainWord? flow (c.left + 1) c
        let text := if word.isEmpty then [] else g.text ++ word
        let g := if word.isEmpty then g else Gap.empty
        if (c.ahead? 0).any fun x => isSpace x || isBreak x then
          let (g, c) ← Gap.read? indent (c.left + 1) g c
          if !flow && (c.column : Int) < indent then return (text, g, c)
          else
            let (more, g, c) ← plainWords? flow indent fuel g c
            return (text ++ more, g, c)
        else return (text, g, c)

/-- Read a plain scalar whose further lines are indented by `indent` columns; whether a line has
ended behind it comes out too. -/
def plain? (flow : Bool) (indent : Int) (c : Cursor) : Option (String × Bool × Cursor) := do
  let (text, g, c) ← plainWords? flow indent (c.left + 1) .empty c
  return (String.ofList text, g.broken, c)

/-! ## Quoted scalars -/

/-- The character that a one-letter escape stands for. -/
def escapeChar? (c : Char) : Option Char :=
  match c with
  | '0' => some '\x00'
  | 'a' => some '\x07'
  | 'b' => some '\x08'
  | 't' => some '\t'
  | '\t' => some '\t'
  | 'n' => some '\n'
  | 'v' => some '\x0b'
  | 'f' => some '\x0c'
  | 'r' => some '\r'
  | 'e' => some '\x1b'
  | ' ' => some ' '
  | '"' => some '"'
  | '/' => some '/'
  | '\\' => some '\\'
  | 'N' => some '\u0085'
  | '_' => some '\u00a0'
  | 'L' => some '\u2028'
  | 'P' => some '\u2029'
  | _ => none

/-- Number of hex digits of an escape that gives a code point. -/
def escapeDigits? (c : Char) : Option Nat :=
  match c with
  | 'x' => some 2
  | 'u' => some 4
  | 'U' => some 8
  | _ => none

/-- The character of a code point, if it has one. -/
def charOf? (n : Nat) : Option Char := if n.isValidChar then some (Char.ofNat n) else none

/-- The character that an escape stands for, the cursor being at its backslash. -/
def escape? (c : Cursor) : Option (Char × Cursor) := do
  let x ← c.ahead? 1
  match escapeChar? x with
  | some y => return (y, c.skip 2)
  | none =>
      let digits ← escapeDigits? x
      let hex := (c.rest.drop 2).take digits
      if hex.length < digits || !hex.all (Text.isDigit 16) then none
      else
        let y ← charOf? (Text.numeralValue 16 hex)
        return (y, c.skip (2 + digits))

/-- Read the characters of a quoted scalar up to a blank, the quote or an escaped line break, which
is read too; whether there was one is the second part of the answer. -/
def quotedWord? (single : Bool) : (fuel : Nat) → Cursor → Option (List Char × Bool × Cursor)
  | 0, c => some ([], false, c)
  | fuel + 1, c =>
      match c.ahead? 0 with
      | none => some ([], false, c)
      | some x =>
          if isSpace x || isBreak x then some ([], false, c)
          else if single && x == '\'' && c.ahead? 1 == some '\'' then do
            let (word, escaped, c) ← quotedWord? single fuel (c.skip 2)
            return (x :: word, escaped, c)
          else if x == (if single then '\'' else '"') then some ([], false, c)
          else if !single && x == '\\' then
            if (c.ahead? 1).any isBreak then some ([], true, (c.skip 1).skipBreak)
            else do
              let (y, c) ← escape? c
              let (word, escaped, c) ← quotedWord? single fuel c
              return (y :: word, escaped, c)
          else do
            let (word, escaped, c) ← quotedWord? single fuel (c.skip 1)
            return (x :: word, escaped, c)

/-- Read the words of a quoted scalar and the gaps after them, up to the quote. -/
def quotedWords? (single : Bool) : (fuel : Nat) → Cursor → Option (List Char × Cursor)
  | 0, _ => none
  | fuel + 1, c =>
      if c.seesDocumentMarker || c.rest.isEmpty then none
      else do
        let (word, escaped, c) ← quotedWord? single (c.left + 1) c
        if c.sees (if single then '\'' else '"') then return (word, c)
        else
          let gap := if escaped then Gap.escaped else Gap.empty
          let (gap, c) ← Gap.read? (-1) (c.left + 1) gap c
          let (more, c) ← quotedWords? single fuel c
          return (word ++ gap.text ++ more, c)

/-- Read a quoted scalar, the cursor being at its first quote. -/
def quoted? (single : Bool) (c : Cursor) : Option (String × Cursor) := do
  let (text, c) ← quotedWords? single (c.left + 1) (c.skip 1)
  return (String.ofList text, c.skip 1)

end NetRegistry.Yaml
