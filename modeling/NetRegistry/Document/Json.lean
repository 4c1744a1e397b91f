/-
# Document.Json -- JSON values and their indented text

A number is a mantissa with the number of its decimal places.  The text of a
value puts each member of a list or object on a line of its own, two spaces
deeper than what encloses it.
-/
import NetRegistry.Text.Numeral

namespace NetRegistry

set_option autoImplicit false

open Text (numeral)

inductive Json where
  | null
  | bool (b : Bool)
  | number (mantissa : Int) (decimals : Nat)
  | string (s : String)
  | array (items : List Json)
  | object (members : List (String × Json))
deriving Inhabited

namespace Json

def int (n : Int) : Json := .number n 0

def nat (n : Nat) : Json := .number n 0

/-- A text, or null in its absence. -/
def optional : Option String → Json
  | none => .null
  | some s => .string s

/-- How a character is written inside a string. -/
def escape (c : Char) : List Char :=
  if c = '"' then ['\\', '"']
  else if c = '\\' then ['\\', '\\']
  else if c = '\n' then ['\\', 'n']
  else if c = '\r' then ['\\', 'r']
  else if c = '\t' then ['\\', 't']
  else if c = '\x08' then ['\\', 'b']
  else if c = '\x0c' then ['\\', 'f']
  else if c.toNat < 0x20 then
    ['\\', 'u', '0', '0'] ++ (if c.toNat < 0x10 then ['0'] else []) ++ numeral 16 c.toNat
  else [c]

def stringText (s : String) : String := String.ofList ('"' :: s.toList.flatMap escape ++ ['"'])

/-- A number; places behind the point are written out. -/
def numberText (mantissa : Int) (decimals : Nat) : String :=
  if decimals = 0 then toString mantissa
  else
    let digits := numeral 10 mantissa.natAbs
    let padded := List.replicate (decimals + 1 - digits.length) '0' ++ digits
    let whole := padded.take (padded.length - decimals)
    let fraction := padded.drop (padded.length - decimals)
    String.ofList ((if mantissa < 0 then ['-'] else []) ++ whole ++ '.' :: fraction)

/-- The start of a line at a given depth. -/
def newline (depth : Nat) : String := "\n" ++ String.ofList (List.replicate (2 * depth) ' ')

mutual

/-- The text of a value that stands at a given depth. -/
def textAt (depth : Nat) : Json → String
  | .null => "null"
  | .bool true => "true"
  | .bool false => "false"
  | .number mantissa decimals => numberText mantissa decimals
  | .string s => stringText s
  | .array [] => "[]"
  | .array (item :: rest) =>
      "[" ++ newline (depth + 1) ++ item.textAt (depth + 1) ++ itemsText (depth + 1) rest ++
        newline depth ++ "]"
  | .object [] => "\x7b\x7d"
  | .object ((key, value) :: rest) =>
      "\x7b" ++ newline (depth + 1) ++ stringText key ++ ": " ++ value.textAt (depth + 1) ++
        membersText (depth + 1) rest ++ newline depth ++ "\x7d"

/-- The texts of further items of a list. -/
def itemsText (depth : Nat) : List Json → String
  | [] => ""
  | item :: rest => "," ++ newline depth ++ item.textAt depth ++ itemsText depth rest

/-- The texts of further members of an object. -/
def membersText (depth : Nat) : List (String × Json) → String
  | [] => ""
  | (key, value) :: rest =>
      "," ++ newline depth ++ stringText key ++ ": " ++ value.textAt depth ++
        membersText depth rest

end

/-- The indented text of a value. -/
def pretty (j : Json) : String := j.textAt 0

end Json

end NetRegistry
