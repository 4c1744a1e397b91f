/-
# Document.Yaml.Lexer -- from text to tokens

Outside brackets the structure of a text is its indentation.  The lexer keeps the
columns of the collections that are open, and writes a token where one starts and
where one ends.  Whether a scalar is a key is known only at the colon behind it,
so the lexer remembers, for each level of brackets, the last place where a key
may have started (`PendingKey`) and puts the token there afterwards.  A key is on
one line and not longer than 1024 characters.

Comments, the two document markers and the brackets are recognized here as well.
Directives, anchors, aliases, tags and block scalars are refused.
-/
import NetRegistry.Document.Yaml.Scalar

namespace NetRegistry.Yaml

set_option autoImplicit false

inductive Token where
  | documentStart
  | documentEnd
  | blockSequence
  | blockMapping
  | blockEnd
  | flowSequence
  | flowSequenceEnd
  | flowMapping
  | flowMappingEnd
  | blockEntry
  | flowEntry
  | key
  | value
  | scalar (text : String) (isQuoted : Bool)
deriving DecidableEq

/-- A place where a key may have started. -/
structure PendingKey where
  /-- Whether there has to be a key, because something else stands in its column. -/
  required : Bool
  /-- Number of tokens before it. -/
  position : Nat
  line : Nat
  column : Nat
  index : Nat

/-- Longest key in characters. -/
def maxKeyLength : Nat := 1024

structure Lexer where
  cursor : Cursor
  /-- The tokens so far, newest first. -/
  tokens : List Token
  /-- Number of tokens so far. -/
  count : Nat
  /-- Column of the innermost open collection, -1 outside of all. -/
  indent : Int
  /-- Columns of the collections around it, innermost first. -/
  outer : List Int
  /-- Whether a key may start here. -/
  keyAllowed : Bool
  /-- The pending keys of the levels of brackets, innermost first. -/
  keys : List (Option PendingKey)

namespace Lexer

def start (text : List Char) : Lexer := ⟨.start text, [], 0, -1, [], true, [none]⟩

variable (l : Lexer)

/-- Whether brackets are open. -/
def inFlow : Bool := 1 < l.keys.length

def emit (t : Token) : Lexer := { l with tokens := t :: l.tokens, count := l.count + 1 }

/-- Write a token behind the first `position` tokens. -/
def emitAt (position : Nat) (t : Token) : Lexer :=
  let later := l.count - position
  { l with
    tokens := l.tokens.take later ++ t :: l.tokens.drop later
    count := l.count + 1 }

def skip (n : Nat) : Lexer := { l with cursor := l.cursor.skip n }

/-- Allow or forbid a key here. -/
def allowKey (yes : Bool) : Lexer := { l with keyAllowed := yes }

/-- The pending key of the innermost brackets. -/
def pending : Option PendingKey := l.keys.head?.join

/-- Replace the pending key of the innermost brackets. -/
def setPending (k : Option PendingKey) : Lexer := { l with keys := k :: l.keys.drop 1 }

/-- Give up the pending key of the innermost brackets, unless it is required. -/
def dropPending? : Option Lexer :=
  if l.pending.any (·.required) then none else some (l.setPending none)

/-- Remember that a key may start here. -/
def savePending? : Option Lexer :=
  if l.keyAllowed then do
    let c := l.cursor
    let required := !l.inFlow && l.indent == (c.column : Int)
    let l' ← l.dropPending?
    return l'.setPending (some ⟨required, l.count, c.line, c.column, c.index⟩)
  else some l

/-- Whether a pending key can no longer become one. -/
def isStale (k : PendingKey) : Bool :=
  k.line < l.cursor.line || k.index + maxKeyLength < l.cursor.index

/-- Give up the pending keys that can no longer become keys, unless one is required. -/
def dropStale? : Option Lexer :=
  if l.keys.any fun k => k.any fun k => l.isStale k && k.required then none
  else some { l with keys := l.keys.map fun k => k.filter fun k => !l.isStale k }

/-- Open a block collection at a column, unless one is open there. -/
def openBlock (column : Nat) (position : Nat) (t : Token) : Lexer :=
  if !l.inFlow && l.indent < (column : Int) then
    { (l.emitAt position t) with indent := column, outer := l.indent :: l.outer }
  else l

/-- Close the block collections to the right of a column. -/
def closeBlocks (column : Int) : List Int → Lexer → Lexer
  | [], l => l
  | outer :: rest, l =>
      if column < l.indent then
        closeBlocks column rest { (l.emit .blockEnd) with indent := outer, outer := rest }
      else l

/-- Close the block collections to the right of a column; inside brackets there are none. -/
def unindent (column : Int) : Lexer :=
  if l.inFlow then l else closeBlocks column l.outer l

/-- Past blanks, comments and line breaks.  A tab counts as a blank where no key may start, and a
byte order mark at the start of a line, where it takes a column; a new line allows a key. -/
def skipBlanks : (fuel : Nat) → Lexer → Lexer
  | 0, l => l
  | fuel + 1, l =>
      let isBlank := fun c => c == ' ' || ((l.inFlow || !l.keyAllowed) && c == '\t')
      let c := l.cursor
      let c := if c.column == 0 && c.sees '\ufeff' then c.skip 1 else c
      let c := c.skip (c.rest.takeWhile isBlank).length
      let c := if c.sees '#' then c.skipLine else c
      if (c.ahead? 0).any isBreak then
        skipBlanks fuel
          { l with cursor := c.skipBreak, keyAllowed := l.keyAllowed || !l.inFlow }
      else { l with cursor := c }

/-! ## The tokens -/

/-- A marker that starts or ends a document. -/
def documentMarker? (t : Token) : Option Lexer := do
  let l ← (l.unindent (-1)).dropPending?
  return ((l.allowKey false).skip 3).emit t

def openFlow? (t : Token) : Option Lexer := do
  let l ← l.savePending?
  let l := { l with keys := none :: l.keys }
  return ((l.allowKey true).skip 1).emit t

def closeFlow? (t : Token) : Option Lexer := do
  let l ← l.dropPending?
  let l := if l.inFlow then { l with keys := l.keys.drop 1 } else l
  return ((l.allowKey false).skip 1).emit t

def flowEntry? : Option Lexer := do
  let l ← l.dropPending?
  return ((l.allowKey true).skip 1).emit .flowEntry

def blockEntry? : Option Lexer :=
  if !l.inFlow && !l.keyAllowed then none
  else do
    let l ← (l.openBlock l.cursor.column l.count .blockSequence).dropPending?
    return ((l.allowKey true).skip 1).emit .blockEntry

def key? : Option Lexer :=
  if !l.inFlow && !l.keyAllowed then none
  else do
    let l ← (l.openBlock l.cursor.column l.count .blockMapping).dropPending?
    return ((l.allowKey (!l.inFlow)).skip 1).emit .key

/-- A colon: what is pending was a key. -/
def value? : Option Lexer :=
  match l.pending with
  | some k =>
      let l := (l.emitAt k.position .key).openBlock k.column k.position .blockMapping
      some ((((l.setPending none).allowKey false).skip 1).emit .value)
  | none =>
      if !l.inFlow && !l.keyAllowed then none
      else
        let l := l.openBlock l.cursor.column l.count .blockMapping
        some (((l.allowKey (!l.inFlow)).skip 1).emit .value)

def quotedScalar? (single : Bool) : Option Lexer := do
  let l ← l.savePending?
  let (text, c) ← quoted? single l.cursor
  return ({ l with cursor := c, keyAllowed := false }).emit (.scalar text true)

/-- A plain scalar; one that a line break follows allows a key. -/
def plainScalar? : Option Lexer := do
  let l ← l.savePending?
  let (text, broken, c) ← plain? l.inFlow (l.indent + 1) l.cursor
  return ({ l with cursor := c, keyAllowed := broken }).emit (.scalar text false)

/-- Whether the character can start nothing but what it indicates. -/
def isIndicator (c : Char) : Bool :=
  "-?:,[]\x7b\x7d#&*!|>'\"%@\x60".toList.contains c

/-- Whether a plain scalar starts with the character. -/
def startsPlain (x : Char) : Bool :=
  !(isSpace x || isIndicator x) ||
    (x == '-' && !(l.cursor.ahead? 1).any isSpace) ||
    (!l.inFlow && (x == '?' || x == ':') && !l.cursor.seesBlank 1)

/-- The token that starts with the character. -/
def token? (x : Char) : Option Lexer :=
  let c := l.cursor
  if c.column == 0 && x == '%' then none
  else if c.seesMarker '-' then l.documentMarker? .documentStart
  else if c.seesMarker '.' then l.documentMarker? .documentEnd
  else if x == '[' then l.openFlow? .flowSequence
  else if x == '{' then l.openFlow? .flowMapping
  else if x == ']' then l.closeFlow? .flowSequenceEnd
  else if x == '}' then l.closeFlow? .flowMappingEnd
  else if x == ',' then l.flowEntry?
  else if x == '-' && c.seesBlank 1 then l.blockEntry?
  else if x == '?' && (l.inFlow || c.seesBlank 1) then l.key?
  else if x == ':' && (l.inFlow || c.seesBlank 1) then l.value?
  else if x == '\'' then l.quotedScalar? true
  else if x == '"' then l.quotedScalar? false
  else if l.startsPlain x then l.plainScalar?
  else none

/-- Close everything at the end of the text. -/
def finish? : Option Lexer := (l.unindent (-1)).dropPending?

/-- Read tokens up to the end of the text. -/
def run? : (fuel : Nat) → Lexer → Option Lexer
  | 0, _ => none
  | fuel + 1, l => do
      let l ← (skipBlanks (l.cursor.left + 1) l).dropStale?
      let l := l.unindent l.cursor.column
      match l.cursor.ahead? 0 with
      | none => l.finish?
      | some x => run? fuel (← l.token? x)

end Lexer

def tokens? (text : String) : Option (List Token) :=
  let chars := text.toList
  if chars.all isAllowed then
    (Lexer.run? (chars.length + 1) (.start chars)).map (·.tokens.reverse)
  else none

end NetRegistry.Yaml
