/-
# Bits -- powers of two

`powTwo n` is the number of values that `n` bits can have.  Address spaces, blocks
and digits are counted with it.
-/

namespace NetRegistry

set_option autoImplicit false

/-- Two to the power `n`: the number of values of `n` bits. -/
def powTwo (n : Nat) : Nat := Nat.pow 2 n

theorem powTwo_zero : powTwo 0 = 1 := rfl

theorem powTwo_succ (n : Nat) : powTwo (n + 1) = powTwo n * 2 := Nat.pow_succ 2 n

theorem powTwo_pos (n : Nat) : 0 < powTwo n := Nat.two_pow_pos n

theorem powTwo_add (m n : Nat) : powTwo (m + n) = powTwo m * powTwo n := Nat.pow_add 2 m n

theorem powTwo_le {m n : Nat} (h : m ≤ n) : powTwo m ≤ powTwo n :=
  Nat.pow_le_pow_right (by decide) h

end NetRegistry
