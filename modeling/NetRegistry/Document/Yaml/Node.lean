/-
# Document.Yaml.Node -- from tokens to nodes

A document is a scalar, a sequence or a mapping of nodes.  Where a node may be
left out (behind a dash, a question mark or a colon) an empty scalar stands for
it.  A sequence that is the value of a block mapping may stand in the column of
its key, and then has no start and end of its own.  A text holds one document, or
none, which reads as an empty scalar.

A plain scalar reads as text wherever text is wanted.  Only a plain scalar can be
null or a flag, and an empty one also reads as an empty list, mapping or record.
-/
import NetRegistry.Document.Dialect
import NetRegistry.Document.Yaml.Lexer

namespace NetRegistry.Yaml

set_option autoImplicit false

inductive Node where
  | scalar (text : String) (isQuoted : Bool)
  | sequence (items : List Node)
  | mapping (entries : List (Node × Node))
deriving Inhabited

namespace Node

/-- The node that stands for one left out. -/
def absent : Node := .scalar "" false

/-- A token that has to be next. -/
def expect? (t : Token) : List Token → Option (List Token)
  | u :: rest => if u = t then some rest else none
  | [] => none

/-- Whether one of the given tokens is next, or none at all. -/
def stopsAt (ends : List Token) : List Token → Bool
  | [] => true
  | t :: _ => ends.contains t

mutual

/-- A node; block collections only where `block` allows them, and a sequence in the column of its
key only where `indentless` does. -/
def node? (block indentless : Bool) : (fuel : Nat) → List Token → Option (Node × List Token)
  | 0, _ => none
  | fuel + 1, tokens =>
      match tokens with
      | .scalar text isQuoted :: rest => some (.scalar text isQuoted, rest)
      | .flowSequence :: rest => (flowItems? true fuel rest).map fun (xs, r) => (.sequence xs, r)
      | .flowMapping :: rest => (flowEntries? true fuel rest).map fun (xs, r) => (.mapping xs, r)
      | .blockSequence :: rest =>
          if block then (blockItems? fuel rest).map fun (xs, r) => (.sequence xs, r) else none
      | .blockMapping :: rest =>
          if block then (blockEntries? fuel rest).map fun (xs, r) => (.mapping xs, r) else none
      | .blockEntry :: _ =>
          if indentless then (plainItems? fuel tokens).map fun (xs, r) => (.sequence xs, r)
          else none
      | _ => none

/-- A node that is left out where one of the given tokens is next. -/
def optionalNode? (block indentless : Bool) (ends : List Token) :
    (fuel : Nat) → List Token → Option (Node × List Token)
  | 0, _ => none
  | fuel + 1, tokens =>
      if stopsAt ends tokens then some (absent, tokens) else node? block indentless fuel tokens

/-- The items of a block sequence, up to its end. -/
def blockItems? : (fuel : Nat) → List Token → Option (List Node × List Token)
  | 0, _ => none
  | fuel + 1, tokens =>
      match tokens with
      | .blockEntry :: rest => do
          let (x, rest) ← optionalNode? true false [.blockEntry, .blockEnd] fuel rest
          let (xs, rest) ← blockItems? fuel rest
          return (x :: xs, rest)
      | .blockEnd :: rest => some ([], rest)
      | _ => none

/-- The items of a sequence in the column of its key, up to the first token that is no dash. -/
def plainItems? : (fuel : Nat) → List Token → Option (List Node × List Token)
  | 0, _ => none
  | fuel + 1, tokens =>
      match tokens with
      | .blockEntry :: rest => do
          let (x, rest) ←
            optionalNode? true false [.blockEntry, .key, .value, .blockEnd] fuel rest
          let (xs, rest) ← plainItems? fuel rest
          return (x :: xs, rest)
      | _ => some ([], tokens)

/-- The entries of a block mapping, up to its end. -/
def blockEntries? : (fuel : Nat) → List Token → Option (List (Node × Node) × List Token)
  | 0, _ => none
  | fuel + 1, tokens =>
      match tokens with
      | .key :: rest => do
          let (k, rest) ← optionalNode? true true [.key, .value, .blockEnd] fuel rest
          let (v, rest) ← valueAfter? true [.key, .value, .blockEnd] fuel rest
          let (xs, rest) ← blockEntries? fuel rest
          return ((k, v) :: xs, rest)
      | .blockEnd :: rest => some ([], rest)
      | _ => none

/-- The value behind a key, left out without a colon. -/
def valueAfter? (block : Bool) (ends : List Token) :
    (fuel : Nat) → List Token → Option (Node × List Token)
  | 0, _ => none
  | fuel + 1, tokens =>
      match tokens with
      | .value :: rest => optionalNode? block block ends fuel rest
      | _ => some (absent, tokens)

/-- The items of a sequence in brackets, up to the closing one.  An item with a colon is a mapping
with one entry. -/
def flowItems? (first : Bool) : (fuel : Nat) → List Token → Option (List Node × List Token)
  | 0, _ => none
  | fuel + 1, tokens =>
      match tokens with
      | .flowSequenceEnd :: rest => some ([], rest)
      | _ => do
          let tokens ← if first then some tokens else expect? .flowEntry tokens
          match tokens with
          | .flowSequenceEnd :: rest => return ([], rest)
          | .key :: rest =>
              let (k, rest) ← flowPairKey? fuel rest
              let (v, rest) ← valueAfter? false [.flowEntry, .flowSequenceEnd] fuel rest
              let (xs, rest) ← flowItems? false fuel rest
              return (.mapping [(k, v)] :: xs, rest)
          | _ =>
              let (x, rest) ← node? false false fuel tokens
              let (xs, rest) ← flowItems? false fuel rest
              return (x :: xs, rest)

/-- The key of an item that is a mapping.  Where it is left out, the token that shows this is taken
too. -/
def flowPairKey? : (fuel : Nat) → List Token → Option (Node × List Token)
  | 0, _ => none
  | fuel + 1, tokens =>
      if stopsAt [.value, .flowEntry, .flowSequenceEnd] tokens then some (absent, tokens.drop 1)
      else node? false false fuel tokens

/-- The entries of a mapping in brackets, up to the closing one.  A key may stand without a
value. -/
def flowEntries? (first : Bool) :
    (fuel : Nat) → List Token → Option (List (Node × Node) × List Token)
  | 0, _ => none
  | fuel + 1, tokens =>
      match tokens with
      | .flowMappingEnd :: rest => some ([], rest)
      | _ => do
          let tokens ← if first then some tokens else expect? .flowEntry tokens
          match tokens with
          | .flowMappingEnd :: rest => return ([], rest)
          | .key :: rest =>
              let (k, rest) ←
                optionalNode? false false [.value, .flowEntry, .flowMappingEnd] fuel rest
              let (v, rest) ← valueAfter? false [.flowEntry, .flowMappingEnd] fuel rest
              let (xs, rest) ← flowEntries? false fuel rest
              return ((k, v) :: xs, rest)
          | _ =>
              let (k, rest) ← node? false false fuel tokens
              let (xs, rest) ← flowEntries? false fuel rest
              return ((k, absent) :: xs, rest)

end

/-- Whether a document and the text behind it end: only markers that end documents are left. -/
def atEnd : List Token → Bool
  | [] => true
  | .documentEnd :: rest => atEnd rest
  | _ => false

/-- The content of a document behind its marker. -/
def content? (fuel : Nat) (tokens : List Token) : Option (Node × List Token) :=
  if stopsAt [.documentStart, .documentEnd] tokens then some (absent, tokens)
  else node? true false fuel tokens

/-- The node of a text that holds one document or none. -/
def parse? (text : String) : Option Node := do
  let tokens ← tokens? text
  -- every level of nesting takes a token, and at most three steps
  let fuel := 3 * tokens.length + 3
  let (n, rest) ← match tokens with
    | [] => some (absent, [])
    | .documentStart :: rest => content? fuel rest
    | _ => node? true false fuel tokens
  if atEnd rest then some n else none

/-! ## Reading nodes -/

/-- Whether a plain scalar stands for nothing. -/
def isNull (text : String) : Bool := ["", "~", "null", "Null", "NULL"].contains text

/-- The flag that a plain scalar stands for. -/
def flagOf? (text : String) : Option Bool :=
  if ["true", "True", "TRUE"].contains text then some true
  else if ["false", "False", "FALSE"].contains text then some false
  else none

def text? : Node → Option String
  | .scalar text _ => some text
  | _ => none

/-- The entries of a mapping by the text of their keys. -/
def textEntries? : List (Node × Node) → Option (List (String × Node))
  | [] => some []
  | (k, v) :: rest => do
      let key ← k.text?
      let later ← textEntries? rest
      return (key, v) :: later

/-- The entries of a mapping, or of an empty scalar. -/
def entries? : Node → Option (List (String × Node))
  | .mapping entries => textEntries? entries
  | .scalar "" false => some []
  | _ => none

instance : Dialect Node where
  text? := text?
  optionalText?
    | .scalar text false => some (if isNull text then none else some text)
    | .scalar text true => some (some text)
    | _ => none
  flag?
    | .scalar text false => flagOf? text
    | _ => none
  items?
    | .sequence items => some items
    | .scalar "" false => some []
    | _ => none
  entries? := entries?
  parts? _ := entries?

end Node

end NetRegistry.Yaml
