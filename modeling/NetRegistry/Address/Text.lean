/-
# Address.Text -- addresses, ranges and blocks as text

An IPv4 address is dotted decimal.  An IPv6 address is eight groups of 16 bits in
lower-case hex with the longest run of two or more zero groups, the first of
equals, written `::`; an address that maps an IPv4 address
(`::ffff:a.b.c.d`) keeps that dotted form.  A range is `first-last` and a block
`base/prefixLen`.
-/
import NetRegistry.Address.Range
import NetRegistry.Text.Numeral

namespace NetRegistry

set_option autoImplicit false

open Text (numeral)

/-- The `count` digits of `n` in base `powTwo width`, most significant first. -/
def splitBits (width : Nat) : (count n : Nat) → List Nat
  | 0, _ => []
  | k + 1, n => n / powTwo (width * k) % powTwo width :: splitBits width k n

@[simp] theorem length_splitBits (width count n : Nat) :
    (splitBits width count n).length = count := by
  induction count with
  | zero => rfl
  | succ k ih => simp [splitBits, ih]

/-- The number with the given digits in base `powTwo width`. -/
def joinBits (width : Nat) (digits : List Nat) : Nat :=
  digits.foldl (fun v d => v * powTwo width + d) 0

/-- Place `sep` between the texts. -/
def joinChars (sep : List Char) : List (List Char) → List Char
  | [] => []
  | [x] => x
  | x :: y :: rest => x ++ sep ++ joinChars sep (y :: rest)

/-- Dotted decimal of the four octets of a 32-bit number. -/
def dottedQuad (n : Nat) : List Char :=
  joinChars ['.'] ((splitBits 8 4 n).map (numeral 10))

/-- Length of the run of zeros that a list starts with. -/
def leadingZeroRun (groups : List Nat) : Nat := (groups.takeWhile (· == 0)).length

/-- Position and length of the longest run of zeros, the first of equals. -/
def longestZeroRun : List Nat → Nat × Nat
  | [] => (0, 0)
  | g :: rest =>
      let here := leadingZeroRun (g :: rest)
      let (pos, len) := longestZeroRun rest
      if len ≤ here then (0, here) else (pos + 1, len)

def hexGroups (groups : List Nat) : List Char := joinChars [':'] (groups.map (numeral 16))

/-- Eight groups of 16 bits as text, the longest run of zeros compressed. -/
def compressedGroups (groups : List Nat) : List Char :=
  let (pos, len) := longestZeroRun groups
  if 1 < len then hexGroups (groups.take pos) ++ [':', ':'] ++ hexGroups (groups.drop (pos + len))
  else hexGroups groups

/-- The IPv6 form of a 128-bit number. -/
def colonHex (n : Nat) : List Char :=
  if n / powTwo 32 = 0xFFFF then ":".toList ++ ":ffff:".toList ++ dottedQuad (n % powTwo 32)
  else compressedGroups (splitBits 16 8 n)

namespace Addr

def chars : {f : Family} → Addr f → List Char
  | .v4, a => dottedQuad a.toNat
  | .v6, a => colonHex a.toNat

def text {f : Family} (a : Addr f) : String := String.ofList a.chars

end Addr

variable {f : Family}

def Range.text (r : Range f) : String := r.first.text ++ "-" ++ r.last.text

def Block.chars (b : Block f) : List Char := b.base.chars ++ '/' :: numeral 10 b.prefixLen

def Block.text (b : Block f) : String := String.ofList b.chars

/-- The message of a refused range or block. -/
def RangeError.text : RangeError f → String
  | .inverted r => s!"inverted range: start {r.first.text} is above end {r.last.text}"
  | .unaligned r => s!"range {r.text} is not CIDR aligned"
  | .prefixTooLong p => s!"invalid prefix length /{p} for a {f.bits}-bit address"

/-- The message of a misused operation. -/
def Misuse.text : Misuse → String
  | .unaligned first last => s!"range {first}-{last} is not CIDR aligned"
  | .prefixTooLong p => s!"prefix /{p} too long"
  | .inverted first last =>
      s!"inverted range AddrRange \x7b start: {first}, end: {last} \x7d"

end NetRegistry
