/-
# Text.Bytes -- text as bytes

A character is written in one to four bytes.  The first of them says how many follow
it and which may come second; any other follower is one of 64.  `ofBytes` reads
bytes as a text.  Bytes that are none are not refused: the longest part that could
begin a character is read as the mark U+FFFD, and a byte that begins none as a mark
of its own.
-/

namespace NetRegistry.Text

set_option autoImplicit false

def bytesOf (s : String) : List UInt8 := s.toUTF8.toList

/-- What stands for bytes that are no text. -/
def replacement : Char := '\uFFFD'

/-- What the first of several bytes says: how many follow it, which of them may come second, and
its own part of the character. -/
structure LeadByte where
  followers : Nat
  least : UInt8
  most : UInt8
  bits : Nat
deriving DecidableEq

/-- What a byte says as the first of several. -/
def leadByte? (b : UInt8) : Option LeadByte :=
  if b < 0xC2 then none
  else if b < 0xE0 then some ⟨1, 0x80, 0xBF, b.toNat % 32⟩
  else if b = 0xE0 then some ⟨2, 0xA0, 0xBF, 0⟩
  else if b = 0xED then some ⟨2, 0x80, 0x9F, 13⟩
  else if b < 0xF0 then some ⟨2, 0x80, 0xBF, b.toNat % 16⟩
  else if b = 0xF0 then some ⟨3, 0x90, 0xBF, 0⟩
  else if b < 0xF4 then some ⟨3, 0x80, 0xBF, b.toNat % 8⟩
  else if b = 0xF4 then some ⟨3, 0x80, 0x8F, 4⟩
  else none

/-- The bytes that follow a first one: at most so many, the next of them between two bounds. -/
def takeFollowers : (count : Nat) → (least most : UInt8) → List UInt8 → List UInt8
  | 0, _, _, _ => []
  | _, _, _, [] => []
  | n + 1, least, most, b :: rest =>
      if least ≤ b ∧ b ≤ most then b :: takeFollowers n 0x80 0xBF rest else []

/-- The character of a first byte and those that follow it. -/
def LeadByte.char (lead : LeadByte) (followers : List UInt8) : Char :=
  Char.ofNat (followers.foldl (fun n b => n * 64 + b.toNat % 64) lead.bits)

def readChars : List UInt8 → List Char
  | [] => []
  | b :: rest =>
      if b < 0x80 then Char.ofNat b.toNat :: readChars rest
      else
        match leadByte? b with
        | none => replacement :: readChars rest
        | some lead =>
            let followers := takeFollowers lead.followers lead.least lead.most rest
            let c := if followers.length = lead.followers then lead.char followers else replacement
            c :: readChars (rest.drop followers.length)
termination_by bytes => bytes.length
decreasing_by all_goals simp only [List.length_cons, List.length_drop]; omega

def ofBytes (bytes : List UInt8) : String := String.ofList (readChars bytes)

end NetRegistry.Text
