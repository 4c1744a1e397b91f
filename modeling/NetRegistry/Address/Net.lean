/-
# Address.Net -- reading addresses and networks

One reader serves two grammars (`Grammar`).  A *network* text is an address, a
slash and a prefix length; its dotted octets may have leading zeros and its `::`
may stand for no group at all.  A *host* text is a bare address; there an octet
has no leading zero and `::` stands for at least one group.  In both an IPv6
text has at most one `::`, its last two groups may be a dotted quad, and a
dotted quad may not be followed by `::`.

Each reader takes what it reads off the front of a text and gives back the rest.
-/
import NetRegistry.Address.Text
import NetRegistry.Text.Blank

namespace NetRegistry

set_option autoImplicit false

open Text (numeralValue readNumeral trim)

/-- What the two address grammars disagree on. -/
structure Grammar where
  /-- Whether a dotted octet may start with a superfluous zero. -/
  leadingZeros : Bool
  /-- The fewest groups that `::` stands for. -/
  shortestGap : Nat

namespace Grammar

def network : Grammar := ⟨true, 0⟩

def host : Grammar := ⟨false, 1⟩

variable (g : Grammar)

/-- Take one given character off a text. -/
def readChar (c : Char) : List Char → Option (List Char)
  | d :: rest => if d = c then some rest else none
  | [] => none

def readOctet (cs : List Char) : Option (Nat × List Char) := do
  let (digits, rest) ← readNumeral 10 3 cs
  let n := numeralValue 10 digits
  if 256 ≤ n then none
  else if !g.leadingZeros && 1 < digits.length && digits.head? == some '0' then none
  else some (n, rest)

/-- `count` octets, each after the first behind a dot. -/
def readOctets : (count : Nat) → (first : Bool) → List Char → Option (List Nat × List Char)
  | 0, _, cs => some ([], cs)
  | k + 1, first, cs => do
      let cs ← if first then some cs else readChar '.' cs
      let (n, rest) ← g.readOctet cs
      let (ns, rest) ← readOctets k false rest
      return (n :: ns, rest)

/-- A dotted quad, as its 32-bit number. -/
def readQuad (cs : List Char) : Option (Nat × List Char) :=
  (g.readOctets 4 true cs).map fun (octets, rest) => (joinBits 8 octets, rest)

/-- A group of one to four hex digits. -/
def readGroup (cs : List Char) : Option (Nat × List Char) :=
  (readNumeral 16 4 cs).map fun (digits, rest) => (numeralValue 16 digits, rest)

/-- Groups up to `room` of them, each after the first behind a colon.  A dotted quad counts for
two groups and ends the sequence; whether one did is the second part of the answer. -/
def readGroups : (room : Nat) → (first : Bool) → List Char → List Nat × Bool × List Char
  | 0, _, cs => ([], false, cs)
  | k + 1, first, cs =>
      match (if first then some cs else readChar ':' cs) with
      | none => ([], false, cs)
      | some cs' =>
          match (if 0 < k then g.readQuad cs' else none) with
          | some (quad, rest) => ([quad / powTwo 16, quad % powTwo 16], true, rest)
          | none =>
              match readGroup cs' with
              | none => ([], false, cs)
              | some (group, rest) =>
                  let (groups, quad, rest) := readGroups k false rest
                  (group :: groups, quad, rest)

/-- The eight groups of an IPv6 text. -/
def readColonHex (cs : List Char) : Option (List Nat × List Char) :=
  let (head, quad, rest) := g.readGroups 8 true cs
  if head.length = 8 then some (head, rest)
  else if quad then none
  else do
    let rest ← readChar ':' rest
    let rest ← readChar ':' rest
    let (tail, _, rest) := g.readGroups (8 - head.length - g.shortestGap) true rest
    return (head ++ List.replicate (8 - head.length - tail.length) 0 ++ tail, rest)

def readAddr (f : Family) (cs : List Char) : Option (Addr f × List Char) := do
  let (n, rest) ← match f with
    | .v4 => g.readQuad cs
    | .v6 => (g.readColonHex cs).map fun (groups, rest) => (joinBits 16 groups, rest)
  let a ← Addr.ofNat? f n
  return (a, rest)

end Grammar

/-- An address of either family. -/
structure Host where
  family : Family
  addr : Addr family

/-- A network of either family, as written: its host bits are kept. -/
structure Net where
  family : Family
  block : Block family

namespace Host

def text (h : Host) : String := h.addr.text

/-- The address, if it is of family `f`. -/
def addr? : (h : Host) → (f : Family) → Option (Addr f)
  | ⟨.v4, a⟩, .v4 => some a
  | ⟨.v6, a⟩, .v6 => some a
  | _, _ => none

/-- Read a bare address that is the whole text. -/
def parse? (cs : List Char) : Option Host :=
  let whole {f : Family} (r : Option (Addr f × List Char)) : Option Host :=
    match r with
    | some (a, []) => some ⟨f, a⟩
    | _ => none
  whole (Grammar.host.readAddr .v4 cs) <|> whole (Grammar.host.readAddr .v6 cs)

end Host

namespace Net

def text (n : Net) : String := n.block.text

/-- The block of family `f` that the network is, its host bits cleared. -/
def block? : (n : Net) → (f : Family) → Option (Block f)
  | ⟨.v4, b⟩, .v4 => some b.network
  | ⟨.v6, b⟩, .v6 => some b.network
  | _, _ => none

/-- Most digits of a prefix length. -/
def prefixDigits : Family → Nat
  | .v4 => 2
  | .v6 => 3

def read (f : Family) (cs : List Char) : Option (Net × List Char) := do
  let (a, rest) ← Grammar.network.readAddr f cs
  let rest ← Grammar.readChar '/' rest
  let (digits, rest) ← readNumeral 10 (prefixDigits f) rest
  let p := numeralValue 10 digits
  if f.bits < p then none else some (⟨f, ⟨a, p⟩⟩, rest)

/-- Read a network that is the whole text, IPv4 being tried first. -/
def parse? (cs : List Char) : Option Net :=
  match read .v4 cs <|> read .v6 cs with
  | some (n, []) => some n
  | _ => none

end Net

namespace Block

variable {f : Family}

/-- The network of the block, host bits kept, refused for an over-long prefix. -/
def toNet? (b : Block f) : Except (RangeError f) Net :=
  if f.bits < b.prefixLen then .error (.prefixTooLong b.prefixLen) else .ok ⟨f, b⟩

/-- Read a block of family `f` from text with any blanks around it; host bits are cleared. -/
def parse? (f : Family) (text : String) : Option (Block f) := do
  let n ← Net.parse? (trim text.toList)
  n.block? f

end Block

end NetRegistry
