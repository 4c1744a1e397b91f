/-
# Listing.Field -- the attributes that patterns look at

Five attributes of a netblock and of its organization can be filtered on.  Each
has a key, which lists are written with; two of them have a second, shorter key
that is accepted when a list is read.
-/

namespace NetRegistry

set_option autoImplicit false

/-- An attribute of a netblock or of its organization. -/
inductive Field where
  | orgHandle
  | orgName
  | orgDescr
  | netname
  | descr
deriving DecidableEq

namespace Field

/-- All fields, in their order. -/
def all : List Field := [.orgHandle, .orgName, .orgDescr, .netname, .descr]

def key : Field → String
  | .orgHandle => "org.handle"
  | .orgName => "org.name"
  | .orgDescr => "org.descr"
  | .netname => "ip.netname"
  | .descr => "ip.descr"

/-- The shorter key of the field, if it has one. -/
def alias? : Field → Option String
  | .netname => some "netname"
  | .descr => some "descr"
  | _ => none

/-- The field of a given key, full or short. -/
def ofKey? (s : String) : Option Field :=
  all.find? fun f => f.key == s || f.alias? == some s

theorem mem_all (f : Field) : f ∈ all := by cases f <;> decide

@[simp] theorem ofKey?_key (f : Field) : ofKey? f.key = some f := by cases f <;> rfl

end Field

/-- One value for each field. -/
structure PerField (α : Type) where
  orgHandle : α
  orgName : α
  orgDescr : α
  netname : α
  descr : α
deriving DecidableEq

namespace PerField

variable {α : Type}

def get (p : PerField α) : Field → α
  | .orgHandle => p.orgHandle
  | .orgName => p.orgName
  | .orgDescr => p.orgDescr
  | .netname => p.netname
  | .descr => p.descr

/-- Replace the value of a field. -/
def set (p : PerField α) (f : Field) (x : α) : PerField α :=
  match f with
  | .orgHandle => { p with orgHandle := x }
  | .orgName => { p with orgName := x }
  | .orgDescr => { p with orgDescr := x }
  | .netname => { p with netname := x }
  | .descr => { p with descr := x }

/-- The same value for every field. -/
def const (x : α) : PerField α := ⟨x, x, x, x, x⟩

@[ext] theorem ext_get {p q : PerField α} (h : ∀ f, p.get f = q.get f) : p = q := by
  cases p; cases q
  have h1 := h .orgHandle; have h2 := h .orgName; have h3 := h .orgDescr
  have h4 := h .netname; have h5 := h .descr
  simp only [get] at h1 h2 h3 h4 h5
  subst h1 h2 h3 h4 h5
  rfl

@[simp] theorem get_set_self (p : PerField α) (f : Field) (x : α) : (p.set f x).get f = x := by
  cases f <;> rfl

theorem get_set_ne (p : PerField α) {f g : Field} (x : α) (h : g ≠ f) :
    (p.set f x).get g = p.get g := by
  cases f <;> cases g <;> first | rfl | exact absurd rfl h

@[simp] theorem get_const (x : α) (f : Field) : (const x).get f = x := by cases f <;> rfl

end PerField

end NetRegistry
