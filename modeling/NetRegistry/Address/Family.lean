/-
# Address.Family -- the two address families

A registry keeps IPv4 and IPv6 data side by side and never mixes them.  The
family is therefore an index: addresses, ranges and blocks carry it in their
type, and `PerFamily` is a pair with one component for each.
-/

namespace NetRegistry

set_option autoImplicit false

inductive Family where
  | v4
  | v6
deriving DecidableEq

namespace Family

/-- Width of an address in bits. -/
def bits : Family → Nat
  | .v4 => 32
  | .v6 => 128

/-- Short name of the family, as reports and traces print it. -/
def name : Family → String
  | .v4 => "v4"
  | .v6 => "v6"

theorem bits_pos (f : Family) : 0 < f.bits := by cases f <;> decide

end Family

/-- One value for each family. -/
structure PerFamily (α : Family → Type) where
  v4 : α .v4
  v6 : α .v6

namespace PerFamily

variable {α β : Family → Type}

def get (p : PerFamily α) : (f : Family) → α f
  | .v4 => p.v4
  | .v6 => p.v6

/-- Replace the component of one family. -/
def set (p : PerFamily α) : (f : Family) → α f → PerFamily α
  | .v4, x => { p with v4 := x }
  | .v6, x => { p with v6 := x }

/-- The pair with the given component for each family. -/
def ofFn (x : (f : Family) → α f) : PerFamily α := ⟨x .v4, x .v6⟩

/-- Apply a function to both components. -/
def map (g : (f : Family) → α f → β f) (p : PerFamily α) : PerFamily β :=
  ⟨g .v4 p.v4, g .v6 p.v6⟩

@[ext] theorem ext_get {p q : PerFamily α} (h : ∀ f, p.get f = q.get f) : p = q := by
  cases p; cases q
  have h4 := h .v4; have h6 := h .v6
  simp only [get] at h4 h6
  rw [h4, h6]

@[simp] theorem get_set_self (p : PerFamily α) (f : Family) (x : α f) : (p.set f x).get f = x := by
  cases f <;> rfl

theorem get_set_ne (p : PerFamily α) {f g : Family} (x : α f) (h : g ≠ f) :
    (p.set f x).get g = p.get g := by
  cases f <;> cases g <;> first | rfl | exact absurd rfl h

@[simp] theorem set_set (p : PerFamily α) (f : Family) (x y : α f) :
    (p.set f x).set f y = p.set f y := by
  cases f <;> rfl

@[simp] theorem get_ofFn (x : (f : Family) → α f) (f : Family) : (ofFn x).get f = x f := by
  cases f <;> rfl

@[simp] theorem get_map (g : (f : Family) → α f → β f) (p : PerFamily α) (f : Family) :
    (p.map g).get f = g f (p.get f) := by
  cases f <;> rfl

end PerFamily

end NetRegistry
