/-
# Text.Numeral -- numbers written in a base

`numeral base n` is the shortest numeral of `n`, with lower-case letters for the
digits above nine; `numeralValue` reads digits of either case.  The two are
inverse (`numeralValue_numeral`) in every base from 2 to 36.
`readNumeral` takes a numeral off the front of a text: all the digits there are,
so that a number with too many of them is refused and not cut.
-/

namespace NetRegistry.Text

set_option autoImplicit false

/-- The digit of value `d`, for `d` below 36. -/
def digitChar (d : Nat) : Char := Char.ofNat (if d < 10 then 48 + d else 87 + d)

/-- Value of a digit in the base, letters of either case counting from ten. -/
def digitValue? (base : Nat) (c : Char) : Option Nat :=
  let n := c.toNat
  let v :=
    if 48 ≤ n && n ≤ 57 then some (n - 48)
    else if 97 ≤ n && n ≤ 122 then some (n - 87)
    else if 65 ≤ n && n ≤ 90 then some (n - 55)
    else none
  v.filter (· < base)

/-- Whether the character is a digit in the base. -/
def isDigit (base : Nat) (c : Char) : Bool := (digitValue? base c).isSome

def numeral (base n : Nat) : List Char :=
  if n < base ∨ base < 2 then [digitChar n]
  else numeral base (n / base) ++ [digitChar (n % base)]
termination_by n
decreasing_by exact Nat.div_lt_self (by omega) (by omega)

/-- The number that a sequence of digits denotes. -/
def numeralValue (base : Nat) (cs : List Char) : Nat :=
  cs.foldl (fun v c => v * base + (digitValue? base c).getD 0) 0

/-- Take a numeral of at most `maxDigits` digits off the front of a text. -/
def readNumeral (base maxDigits : Nat) (cs : List Char) : Option (List Char × List Char) :=
  let digits := cs.takeWhile (isDigit base)
  if digits.isEmpty || maxDigits < digits.length then none
  else some (digits, cs.dropWhile (isDigit base))

theorem digitValue?_digitChar {base d : Nat} (hb : base ≤ 36) (hd : d < base) :
    digitValue? base (digitChar d) = some d := by
  have all : ∀ e ∈ List.range 36, digitValue? 36 (digitChar e) = some e := by decide
  have h := all d (List.mem_range.mpr (by omega))
  simp only [digitValue?, Option.filter_eq_some_iff] at h ⊢
  exact ⟨h.1, by simpa using hd⟩

theorem numeralValue_append_singleton (base : Nat) (cs : List Char) (c : Char) :
    numeralValue base (cs ++ [c]) = numeralValue base cs * base + (digitValue? base c).getD 0 := by
  simp [numeralValue, List.foldl_append]

/-- A numeral denotes the number it was written for. -/
theorem numeralValue_numeral {base : Nat} (h2 : 2 ≤ base) (h36 : base ≤ 36) (n : Nat) :
    numeralValue base (numeral base n) = n := by
  rw [numeral]
  split
  · rename_i h
    simp [numeralValue, digitValue?_digitChar h36 (show n < base by omega)]
  · rw [numeralValue_append_singleton, numeralValue_numeral h2 h36 (n / base),
      digitValue?_digitChar h36 (Nat.mod_lt _ (by omega))]
    have := Nat.div_add_mod n base
    rw [Nat.mul_comm] at this
    simpa using this
termination_by n
decreasing_by exact Nat.div_lt_self (by omega) (by omega)

/-- A numeral consists of digits. -/
theorem isDigit_of_mem_numeral {base : Nat} (h2 : 2 ≤ base) (h36 : base ≤ 36) (n : Nat) :
    ∀ c ∈ numeral base n, isDigit base c = true := by
  intro c hc
  rw [numeral] at hc
  split at hc
  · rename_i h
    obtain rfl := List.mem_singleton.mp hc
    simp [isDigit, digitValue?_digitChar h36 (show n < base by omega)]
  · rcases List.mem_append.mp hc with h | h
    · exact isDigit_of_mem_numeral h2 h36 (n / base) c h
    · obtain rfl := List.mem_singleton.mp h
      simp [isDigit, digitValue?_digitChar h36 (Nat.mod_lt n (show base > 0 by omega))]
termination_by n
decreasing_by exact Nat.div_lt_self (by omega) (by omega)

theorem numeral_ne_nil (base n : Nat) : numeral base n ≠ [] := by
  rw [numeral]; split <;> simp

end NetRegistry.Text
