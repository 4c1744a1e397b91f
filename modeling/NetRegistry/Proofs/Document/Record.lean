/-
# Proofs.Document.Record -- what reading accepts in JSON values

A value fits a reader or does not; here each reader is turned round and told by the
values that it accepts.  A record may be an object of some of its parts in any order
or a list of the first ones (`Json.Record`), and one part of it reads as a value or is
left out, when the value is the default (`Json.Part`): both speak of which parts are
there, never of their order.

* `Json.list?_eq_some_iff`, `Json.texts?_eq_some_iff`: lists, member by member.
* `Json.record?_eq_some_iff`: records have known parts, each of them once.
* `Json.required?_eq_some_iff`, `Json.withDefault?_eq_some_iff`: single parts.
-/
import Mathlib.Data.List.Forall2
import NetRegistry.Document.Dialect

namespace NetRegistry

set_option autoImplicit false

variable {α β : Type}

/-! ## Values -/

namespace Json

/-- A list of texts. -/
def texts (l : List String) : Json := .array (l.map .string)

mutual

/-- No object inside the value has a key twice. -/
def DistinctKeys : Json → Prop
  | .array items => ItemsDistinct items
  | .object members => (members.map (·.1)).Nodup ∧ MembersDistinct members
  | _ => True

def ItemsDistinct : List Json → Prop
  | [] => True
  | j :: rest => j.DistinctKeys ∧ ItemsDistinct rest

def MembersDistinct : List (String × Json) → Prop
  | [] => True
  | (_, j) :: rest => j.DistinctKeys ∧ MembersDistinct rest

end

variable {j : Json} {items : List Json} {members parts : List (String × Json)}

theorem itemsDistinct_iff : ItemsDistinct items ↔ ∀ j ∈ items, j.DistinctKeys := by
  induction items with
  | nil => simp [ItemsDistinct]
  | cons j rest ih => simp [ItemsDistinct, ih]

theorem membersDistinct_iff : MembersDistinct members ↔ ∀ m ∈ members, m.2.DistinctKeys := by
  induction members with
  | nil => simp [MembersDistinct]
  | cons m rest ih => simp [MembersDistinct, ih]

theorem text?_eq_some_iff {s : String} : Dialect.text? j = some s ↔ j = .string s := by
  cases j <;> simp [Dialect.text?]

theorem optionalText?_eq_some_iff {s : Option String} :
    Dialect.optionalText? j = some s ↔ j = .optional s := by
  cases j <;> cases s <;> simp [Dialect.optionalText?, optional]

theorem flag?_eq_some_iff {b : Bool} : Dialect.flag? j = some b ↔ j = .bool b := by
  cases j <;> simp [Dialect.flag?]

theorem all?_eq_some_iff {read : Json → Option α} {l : List α} :
    Dialect.all? read items = some l ↔ List.Forall₂ (fun j a => read j = some a) items l := by
  induction items generalizing l with
  | nil => simp [Dialect.all?, eq_comm]
  | cons j rest ih =>
    cases l <;> simp [Dialect.all?, Option.bind_eq_some_iff, ih]

theorem list?_eq_some_iff {read : Json → Option α} {l : List α} : Dialect.list? read j = some l ↔
    ∃ items, j = .array items ∧ List.Forall₂ (fun j a => read j = some a) items l := by
  cases j <;> simp [Dialect.list?, Dialect.items?, all?_eq_some_iff]

theorem texts?_eq_some_iff {l : List String} :
    Dialect.list? Dialect.text? j = some l ↔ j = texts l := by
  simp only [list?_eq_some_iff, text?_eq_some_iff]
  have same (items : List Json) :
      List.Forall₂ (fun j a => j = .string a) items l ↔ items = l.map .string := by
    rw [← List.forall₂_map_right_iff (R := Eq), List.forall₂_eq_eq_eq]
  simp only [same, texts, exists_eq_right]

theorem texts_injective {l l' : List String} (same : texts l = texts l') : l = l' :=
  (List.map_injective_iff.mpr fun _ _ => Json.string.inj) (Json.array.inj same)

theorem distinctKeys_texts (l : List String) : (texts l).DistinctKeys := by
  refine itemsDistinct_iff.mpr fun j member => ?_
  obtain ⟨s, -, rfl⟩ := List.mem_map.mp member
  trivial

/-! ## Records -/

/-- The parts of a record that may have parts of the given names: an object of some of them in any
order, or a list of the first ones. -/
inductive Record (names : List String) : Json → List (String × Json) → Prop
  | object {members : List (String × Json)} (known : ∀ m ∈ members, m.1 ∈ names)
      (distinct : (members.map (·.1)).Nodup) : Record names (.object members) members
  | array {items : List Json} (short : items.length ≤ names.length) :
      Record names (.array items) (names.zip items)

/-- The part of a name reads as a value, or is left out and the value is the default. -/
def Part (parts : List (String × Json)) (name : String) (default : α) (Reads : Json → α → Prop)
    (a : α) : Prop :=
  (∃ j, (name, j) ∈ parts ∧ Reads j a) ∨ ((∀ m ∈ parts, m.1 ≠ name) ∧ a = default)

variable {names : List String} {name : String}

theorem keys_zip_sublist (names : List String) (items : List Json) :
    ((names.zip items).map (·.1)).Sublist names := by
  induction names generalizing items with
  | nil => simp
  | cons name rest ih =>
    cases items with
    | nil => simp
    | cons j items => simpa using ih items

theorem Record.distinct (distinctNames : names.Nodup) (record : Record names j parts) :
    (parts.map (·.1)).Nodup := by
  cases record with
  | object _ distinct => exact distinct
  | array => exact distinctNames.sublist (keys_zip_sublist names _)

/-- The parts of a record are values inside it. -/
theorem Record.distinctKeys (record : Record names j parts) (distinct : j.DistinctKeys)
    {m : String × Json} (member : m ∈ parts) : m.2.DistinctKeys := by
  cases record with
  | object => exact membersDistinct_iff.mp distinct.2 m member
  | array => exact itemsDistinct_iff.mp distinct m.2 (List.of_mem_zip member).2

theorem record?_eq_some_iff (distinctNames : names.Nodup) :
    Dialect.record? names j = some parts ↔ Record names j parts := by
  constructor
  · intro read
    simp only [Dialect.record?, Option.bind_eq_bind, Option.bind_eq_some_iff] at read
    obtain ⟨given, found, checked⟩ := read
    split at checked
    · rename_i fine
      obtain rfl := Option.some.inj checked
      simp only [Bool.and_eq_true, List.all_eq_true, List.contains_iff_mem, decide_eq_true_eq,
        List.mem_map, forall_exists_index, and_imp] at fine
      obtain ⟨known, distinct⟩ := fine
      cases j with
      | object members =>
        obtain rfl := Option.some.inj found
        exact .object (fun m member => known m.1 m member rfl) distinct
      | array items =>
        simp only [Dialect.parts?, Option.ite_none_right_eq_some, Option.some.injEq] at found
        obtain ⟨short, rfl⟩ := found
        exact .array short
      | _ => cases found
    · cases checked
  · intro record
    have distinct := record.distinct distinctNames
    have known : ∀ m ∈ parts, m.1 ∈ names := by
      cases record with
      | object known _ => exact known
      | array short => exact fun m member => (List.of_mem_zip member).1
    have found : Dialect.parts? names j = some parts := by
      cases record with
      | object => rfl
      | array short => simp [Dialect.parts?, short]
    simp only [Dialect.record?, found]
    simpa [distinct] using known

theorem lookup_eq_some_iff (distinct : (parts.map (·.1)).Nodup) :
    parts.lookup name = some j ↔ (name, j) ∈ parts := by
  induction parts with
  | nil => simp
  | cons m rest ih =>
    obtain ⟨key, value⟩ := m
    rw [List.map_cons, List.nodup_cons] at distinct
    obtain ⟨fresh, distinct⟩ := distinct
    rw [List.lookup_cons]
    by_cases same : name = key
    · subst same
      have absent : (name, j) ∉ rest := fun member =>
        fresh (List.mem_map.mpr ⟨(name, j), member, rfl⟩)
      simp [absent, eq_comm]
    · have differs : (name == key) = false := beq_false_of_ne same
      simp [differs, same, ih distinct]

theorem required?_eq_some_iff {read : Json → Option α} {a : α}
    (distinct : (parts.map (·.1)).Nodup) :
    Dialect.required? read name parts = some a ↔ ∃ j, (name, j) ∈ parts ∧ read j = some a := by
  simp only [Dialect.required?, Option.bind_eq_some_iff, lookup_eq_some_iff distinct]

theorem withDefault?_eq_some_iff {default : α} {read : Json → Option α} {a : α}
    (distinct : (parts.map (·.1)).Nodup) : Dialect.withDefault? default read name parts = some a ↔
      Part parts name default (fun j a => read j = some a) a := by
  rw [Dialect.withDefault?, Part]
  cases found : parts.lookup name with
  | none =>
    have absent : ∀ m ∈ parts, m.1 ≠ name := fun m member same => by
      have other := List.lookup_eq_none_iff.mp found m member
      simp [same] at other
    have out : ¬ ∃ j, (name, j) ∈ parts ∧ read j = some a := fun ⟨j, member, _⟩ =>
      absent _ member rfl
    simp only [out, false_or, Option.some.injEq]
    exact ⟨fun same => ⟨absent, same.symm⟩, fun h => h.2.symm⟩
  | some j =>
    have member := (lookup_eq_some_iff distinct).mp found
    constructor
    · exact fun reads => Or.inl ⟨j, member, reads⟩
    · rintro (⟨j', member', reads⟩ | ⟨absent, -⟩)
      · rw [← lookup_eq_some_iff distinct, found] at member'
        exact Option.some.inj member' ▸ reads
      · exact absurd rfl (absent _ member)

theorem Part.congr {default a : α} {Reads Reads' : Json → α → Prop}
    (same : ∀ j, (name, j) ∈ parts → (Reads j a ↔ Reads' j a)) :
    Part parts name default Reads a ↔ Part parts name default Reads' a := by
  have inside : (∃ j, (name, j) ∈ parts ∧ Reads j a) ↔ ∃ j, (name, j) ∈ parts ∧ Reads' j a :=
    exists_congr fun j => and_congr_right (same j)
  rw [Part, Part, inside]

end Json

end NetRegistry
