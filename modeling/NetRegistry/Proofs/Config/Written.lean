/-
# Proofs.Config.Written -- definitions and configurations survive being written

Writing leaves out what is empty and uses the full key of every field; reading takes
the parts in any order, fills in what is left out, takes the short keys too and
refuses parts that it does not know.  What reading accepts is said here without it:
`Definition.Spells` and `Config.Spells` speak of which members are there, never of
their order.

* `Filters.read?_eq_some_iff`: of the keys of one field, the greatest counts.
* `Definition.read?_eq_some_iff`, `Config.read?_eq_some_iff`: reading accepts exactly
  the spellings.
* `Definition.spells_toJson`, `Config.spells_toJson`: what is written is one of them.

**Main theorem** `documents_round_trip`.
-/
import Mathlib.Data.String.Basic
import NetRegistry.Config
import NetRegistry.Proofs.Document.Record

namespace NetRegistry

set_option autoImplicit false

variable {α β : Type}

/-! ## Filters -/

namespace Field

/-- The text is the key of the field or its short key. -/
def NamedBy (f : Field) (key : String) : Prop := key = f.key ∨ f.alias? = some key

theorem ofKey?_eq_some_iff {f : Field} {key : String} : ofKey? key = some f ↔ f.NamedBy key := by
  constructor
  · intro found
    have named := List.find?_some found
    simp only [Bool.or_eq_true, beq_iff_eq] at named
    exact named.imp Eq.symm id
  · rintro (rfl | short)
    · exact ofKey?_key f
    · cases f <;> cases short <;> rfl

end Field

namespace Filters

open Json (texts Record Part)

variable {p q : Filters} {f : Field} {j : Json} {members : List (String × Json)}

/-- The entries are those of the filters: every key is that of a field, and of the keys of one field
the greatest counts. -/
structure Spelled (members : List (String × Json)) (p : Filters) : Prop where
  distinct : (members.map (·.1)).Nodup
  legible : ∀ m ∈ members, (∃ f : Field, f.NamedBy m.1) ∧ ∃ patterns, m.2 = texts patterns
  latest : ∀ f patterns, p.get f = some patterns ↔
    ∃ key, (key, texts patterns) ∈ members ∧ f.NamedBy key ∧
      ∀ m ∈ members, f.NamedBy m.1 → m.1 ≤ key

/-- An object whose entries are those of the filters. -/
def Spells (j : Json) (p : Filters) : Prop := ∃ members, j = .object members ∧ Spelled members p

/-- Every entry is for a field and has a list of texts. -/
def Legible (members : List (String × Json)) : Prop :=
  ∀ m ∈ members, (∃ f : Field, f.NamedBy m.1) ∧ ∃ patterns, m.2 = texts patterns

/-- The patterns of the last entry for a field. -/
def lastEntry (f : Field) : List (String × Json) → Option (List String)
  | [] => none
  | (key, j) :: rest => (lastEntry f rest).or
      (if Field.ofKey? key = some f then Dialect.list? Dialect.text? j else none)

theorem get_set_or (p : Filters) (f g : Field) (patterns : List String) :
    (p.set f (some patterns)).get g = (if some f = some g then some patterns else none).or (p.get g) := by
  by_cases same : f = g
  · subst same
    simp
  · simp [same, PerField.get_set_ne p (some patterns) (Ne.symm same)]

/-- Reading entries one after the other, each field keeps what the last entry for it says. -/
theorem readEntries?_eq_some_iff : readEntries? p members = some q ↔
    Legible members ∧ ∀ f, q.get f = (lastEntry f members).or (p.get f) := by
  induction members generalizing p with
  | nil =>
    simp only [readEntries?, Option.some.injEq, Legible, lastEntry, Option.none_or, List.not_mem_nil,
      false_implies, implies_true, true_and]
    exact ⟨fun same f => same ▸ rfl, fun same => (PerField.ext_get same).symm⟩
  | cons m rest ih =>
    obtain ⟨key, j⟩ := m
    simp only [readEntries?, Option.bind_eq_bind, Option.bind_eq_some_iff, ih, Legible,
      List.forall_mem_cons, Field.ofKey?_eq_some_iff, Json.texts?_eq_some_iff, lastEntry,
      Option.or_assoc]
    constructor
    · rintro ⟨f, named, patterns, rfl, legible, got⟩
      refine ⟨⟨⟨⟨f, named⟩, patterns, rfl⟩, legible⟩, fun g => ?_⟩
      rw [got, get_set_or, ← Field.ofKey?_eq_some_iff.mpr named, Json.texts?_eq_some_iff.mpr rfl]
    · rintro ⟨⟨⟨⟨f, named⟩, patterns, rfl⟩, legible⟩, got⟩
      refine ⟨f, named, patterns, rfl, legible, fun g => ?_⟩
      rw [got, get_set_or, ← Field.ofKey?_eq_some_iff.mpr named, Json.texts?_eq_some_iff.mpr rfl]

theorem lastEntry_eq_none_iff (legible : Legible members) :
    lastEntry f members = none ↔ ∀ m ∈ members, ¬ f.NamedBy m.1 := by
  induction members with
  | nil => simp [lastEntry]
  | cons m rest ih =>
    obtain ⟨key, j⟩ := m
    obtain ⟨⟨-, own, rfl⟩, later⟩ := List.forall_mem_cons.mp legible
    simp [lastEntry, ih later, Field.ofKey?_eq_some_iff, Json.texts?_eq_some_iff.mpr rfl, and_comm]

/-- Among entries in ascending order of their keys, the last one for a field has the greatest. -/
theorem lastEntry_eq_some_iff {patterns : List String} (legible : Legible members)
    (ascending : members.Pairwise fun m n => m.1 < n.1) : lastEntry f members = some patterns ↔
      ∃ key, (key, texts patterns) ∈ members ∧ f.NamedBy key ∧
        ∀ m ∈ members, f.NamedBy m.1 → m.1 ≤ key := by
  induction members generalizing patterns with
  | nil => simp [lastEntry]
  | cons m rest ih =>
    obtain ⟨key, j⟩ := m
    obtain ⟨below, ascendingRest⟩ := List.pairwise_cons.mp ascending
    obtain ⟨⟨-, own, rfl⟩, legibleRest⟩ := List.forall_mem_cons.mp legible
    rw [lastEntry]
    cases found : lastEntry f rest with
    | none =>
      have others := (lastEntry_eq_none_iff legibleRest).mp found
      rw [Option.none_or, Option.ite_none_right_eq_some, Field.ofKey?_eq_some_iff,
        Json.texts?_eq_some_iff]
      constructor
      · rintro ⟨named, same⟩
        refine ⟨key, same ▸ List.mem_cons_self, named, List.forall_mem_cons.mpr ⟨?_, ?_⟩⟩
        · exact fun _ => le_rfl
        · exact fun m member named' => absurd named' (others m member)
      · rintro ⟨key', member, named, -⟩
        rcases List.mem_cons.mp member with head | later
        · obtain ⟨rfl, same⟩ := Prod.mk.inj head
          exact ⟨named, same.symm⟩
        · exact absurd named (others _ later)
    | some latest =>
      -- the head is below an entry for the field, and so is not the one looked for
      obtain ⟨next, nextIn, nextNamed, -⟩ := (ih legibleRest ascendingRest).mp found
      rw [Option.some_or, ← found, ih legibleRest ascendingRest]
      constructor
      · rintro ⟨key', member, named, greatest⟩
        refine ⟨key', List.mem_cons_of_mem _ member, named,
          List.forall_mem_cons.mpr ⟨fun _ => le_of_lt (below _ member), greatest⟩⟩
      · rintro ⟨key', member, named, greatest⟩
        have ofRest := (List.forall_mem_cons.mp greatest).2
        rcases List.mem_cons.mp member with head | later
        · obtain ⟨rfl, -⟩ := Prod.mk.inj head
          exact absurd (ofRest _ nextIn nextNamed) (not_le_of_gt (below _ nextIn))
        · exact ⟨key', later, named, ofRest⟩

theorem sortMembers_perm (members : List (String × Json)) :
    (Json.sortMembers members).Perm members := List.mergeSort_perm _ _

theorem ascending_sortMembers (distinct : (members.map (·.1)).Nodup) :
    (Json.sortMembers members).Pairwise fun m n => m.1 < n.1 := by
  have sorted : (Json.sortMembers members).Pairwise fun m n => decide (m.1 ≤ n.1) = true :=
    List.pairwise_mergeSort (by simpa using fun _ _ _ => String.le_trans)
      (by simpa using fun _ _ => String.le_total _ _) members
  have apart := ((sortMembers_perm members).map (·.1)).nodup_iff.mpr distinct
  rw [List.Nodup, List.pairwise_map] at apart
  exact sorted.imp₂ (fun m n le ne => lt_of_le_of_ne (of_decide_eq_true le) ne) apart

theorem entries?_eq_some_iff {entries : List (String × Json)} : Dialect.entries? j = some entries ↔
    ∃ members, j = .object members ∧ Json.sortMembers members = entries := by
  cases j <;> simp [Dialect.entries?]

/-- Reading accepts exactly the objects that spell filters. -/
theorem read?_eq_some_iff (distinctKeys : j.DistinctKeys) : read? j = some p ↔ Spells j p := by
  have read_object (members : List (String × Json)) (distinct : (members.map (·.1)).Nodup) :
      readEntries? empty (Json.sortMembers members) = some p ↔ Spelled members p := by
    have same : ∀ m, m ∈ Json.sortMembers members ↔ m ∈ members := fun m =>
      (sortMembers_perm members).mem_iff
    have legible_iff : Legible (Json.sortMembers members) ↔ Legible members := by
      simp only [Legible, same]
    have latest (legible : Legible members) (f : Field) (patterns : List String) :
        lastEntry f (Json.sortMembers members) = some patterns ↔
          ∃ key, (key, texts patterns) ∈ Json.sortMembers members ∧ f.NamedBy key ∧
            ∀ m ∈ Json.sortMembers members, f.NamedBy m.1 → m.1 ≤ key :=
      lastEntry_eq_some_iff (legible_iff.mpr legible) (ascending_sortMembers distinct)
    simp only [same] at latest
    rw [readEntries?_eq_some_iff, legible_iff]
    simp only [empty, PerField.get_const, Option.or_none]
    constructor
    · rintro ⟨legible, got⟩
      exact ⟨distinct, legible, fun f patterns => by rw [got, latest legible]⟩
    · rintro ⟨-, legible, got⟩
      exact ⟨legible, fun f => Option.ext fun patterns => by rw [got, latest legible]⟩
  simp only [read?, Option.bind_eq_some_iff, entries?_eq_some_iff]
  constructor
  · rintro ⟨-, ⟨members, rfl, rfl⟩, read⟩
    exact ⟨members, rfl, (read_object members distinctKeys.1).mp read⟩
  · rintro ⟨members, rfl, spelled⟩
    exact ⟨_, ⟨members, rfl, rfl⟩, (read_object members distinctKeys.1).mpr spelled⟩

theorem mem_entries {m : Field × List String} : m ∈ p.entries ↔ p.get m.1 = some m.2 := by
  obtain ⟨f, patterns⟩ := m
  simp [entries, List.mem_filterMap, Option.map_eq_some_iff, Field.mem_all]

theorem mem_written {m : String × Json} :
    m ∈ p.entries.map (fun (f, patterns) => (f.key, texts patterns)) ↔
      ∃ f patterns, p.get f = some patterns ∧ m = (f.key, texts patterns) := by
  simp only [List.mem_map, Prod.exists, mem_entries, eq_comm (a := m)]

theorem nodup_written (p : Filters) :
    ((p.entries.map fun (f, patterns) => (f.key, texts patterns)).map (·.1)).Nodup := by
  have fields : p.entries.map (·.1) = Field.all.filter fun f => (p.get f).isSome := by
    rw [entries, List.map_filterMap, ← List.filterMap_eq_filter]
    congr 1
    funext f
    cases h : p.get f <;> simp [Option.guard, h]
  have keys : (p.entries.map fun (f, patterns) => (f.key, texts patterns)).map (·.1) =
      (p.entries.map (·.1)).map Field.key := by
    rw [List.map_map, List.map_map]
    rfl
  have apart : (Field.all.map Field.key).Nodup := by decide
  rw [keys, fields]
  exact apart.sublist (List.filter_sublist.map _)

/-- What is written spells the filters, by the full keys alone. -/
theorem spells_toJson (p : Filters) : Spells p.toJson p := by
  have own {f g : Field} (named : f.NamedBy g.key) : f = g :=
    Option.some.inj ((Field.ofKey?_eq_some_iff.mpr named).symm.trans (Field.ofKey?_key g))
  refine ⟨_, rfl, nodup_written p, fun m member => ?_, fun f patterns => ?_⟩
  · obtain ⟨f, patterns, -, rfl⟩ := mem_written.mp member
    exact ⟨⟨f, Or.inl rfl⟩, patterns, rfl⟩
  · constructor
    · intro mentioned
      refine ⟨f.key, mem_written.mpr ⟨f, patterns, mentioned, rfl⟩, Or.inl rfl, fun m member named => ?_⟩
      obtain ⟨g, others, -, rfl⟩ := mem_written.mp member
      exact own named ▸ le_rfl
    · rintro ⟨key, member, named, -⟩
      obtain ⟨g, others, mentioned, same⟩ := mem_written.mp member
      obtain ⟨rfl, values⟩ := Prod.mk.inj same
      rw [own named, mentioned, Json.texts_injective values]

theorem distinctKeys_toJson (p : Filters) : p.toJson.DistinctKeys := by
  refine ⟨nodup_written p, Json.membersDistinct_iff.mpr fun m member => ?_⟩
  obtain ⟨f, patterns, -, rfl⟩ := mem_written.mp member
  exact Json.distinctKeys_texts patterns

end Filters

namespace Definition

open Json (texts Record Part)

variable {d : Definition} {j : Json} {parts : List (String × Json)}

/-- The parts are those of the definition. -/
structure Spelled (parts : List (String × Json)) (d : Definition) : Prop where
  name : ("name", .string d.name) ∈ parts
  registrar : Part parts "registrar" none (fun j r => j = .optional r) d.registrar
  wanted : Part parts "match" .empty Filters.Spells d.wanted
  ignored : Part parts "ignore" .empty Filters.Spells d.ignored
  includes : Part parts "include" [] (fun j refs => j = texts refs) d.includes
  excludes : Part parts "exclude" [] (fun j refs => j = texts refs) d.excludes

/-- A record with the parts of the definition. -/
def Spells (j : Json) (d : Definition) : Prop := ∃ parts, Record partNames j parts ∧ Spelled parts d

theorem read?_eq_some_iff (distinctKeys : j.DistinctKeys) : read? j = some d ↔ Spells j d := by
  have distinctNames : partNames.Nodup := by decide
  simp only [read?, Option.bind_eq_bind, Option.bind_eq_some_iff,
    Json.record?_eq_some_iff distinctNames, Spells]
  refine exists_congr fun parts => and_congr_right fun record => ?_
  have distinct := record.distinct distinctNames
  have filters (name : String) (p : Filters) :
      Part parts name .empty (fun j a => Filters.read? j = some a) p ↔
        Part parts name .empty Filters.Spells p :=
    Part.congr fun j member => Filters.read?_eq_some_iff (record.distinctKeys distinctKeys member)
  simp only [Json.required?_eq_some_iff distinct, Json.withDefault?_eq_some_iff distinct, filters,
    Json.text?_eq_some_iff, Json.optionalText?_eq_some_iff, Json.texts?_eq_some_iff,
    exists_eq_right, Option.pure_def, Option.some.injEq]
  constructor
  · rintro ⟨name, named, registrar, r, wanted, w, ignored, i, includes, inc, excludes, exc, rfl⟩
    exact ⟨named, r, w, i, inc, exc⟩
  · rintro ⟨named, r, w, i, inc, exc⟩
    exact ⟨_, named, _, r, _, w, _, i, _, inc, _, exc, rfl⟩

theorem mem_partUnless {empty : Bool} {name : String} {value : Json} {m : String × Json} :
    m ∈ partUnless empty name value ↔ empty = false ∧ m = (name, value) := by
  cases empty <;> simp [partUnless]

theorem keys_partUnless_sublist (empty : Bool) (name : String) (value : Json) :
    ((partUnless empty name value).map (·.1)).Sublist [name] := by
  cases empty <;> simp [partUnless]

/-- A part that is left out when empty has its value, be it there or not. -/
theorem part_of_mem_iff {α : Type} (empty : Bool) (value : Json) {name : String} {default a : α}
    {Reads : Json → α → Prop} (reads : Reads value a) (left : empty = true → a = default)
    (here : ∀ j, (name, j) ∈ parts ↔ empty = false ∧ j = value) :
    Part parts name default Reads a := by
  cases empty with
  | false => exact Or.inl ⟨value, (here value).mpr ⟨rfl, rfl⟩, reads⟩
  | true =>
    refine Or.inr ⟨fun m member same => ?_, left rfl⟩
    obtain ⟨key, j⟩ := m
    obtain rfl : key = name := same
    cases ((here j).mp member).1

theorem filters_eq_empty {p : Filters} (none : p.isEmpty = true) : p = .empty := by
  refine PerField.ext_get fun f => ?_
  rw [Filters.isEmpty, List.all_eq_true] at none
  simpa [Filters.empty] using none f f.mem_all

/-- The parts that are written: the name, and those of the others that are not empty. -/
def written (d : Definition) : List (String × Json) :=
  [("name", .string d.name)] ++
  partUnless d.registrar.isNone "registrar" (.optional d.registrar) ++
  partUnless d.wanted.isEmpty "match" d.wanted.toJson ++
  partUnless d.ignored.isEmpty "ignore" d.ignored.toJson ++
  partUnless d.includes.isEmpty "include" (texts d.includes) ++
  partUnless d.excludes.isEmpty "exclude" (texts d.excludes)

theorem keys_written_sublist (d : Definition) : (d.written.map (·.1)).Sublist partNames := by
  have names : partNames = ["name"] ++ ["registrar"] ++ ["match"] ++ ["ignore"] ++ ["include"] ++
      ["exclude"] := rfl
  simp only [names, written, List.map_append]
  have own (empty name value) := keys_partUnless_sublist empty name value
  exact (((((List.Sublist.refl _).append (own _ _ _)).append (own _ _ _)).append (own _ _ _)).append
    (own _ _ _)).append (own _ _ _)

theorem spelled_written (d : Definition) : Spelled d.written d where
  name := by simp [written]
  registrar := part_of_mem_iff d.registrar.isNone (.optional d.registrar) rfl (by simp)
    (by simp [written, mem_partUnless])
  wanted := part_of_mem_iff d.wanted.isEmpty d.wanted.toJson (Filters.spells_toJson d.wanted)
    filters_eq_empty (by simp [written, mem_partUnless])
  ignored := part_of_mem_iff d.ignored.isEmpty d.ignored.toJson (Filters.spells_toJson d.ignored)
    filters_eq_empty (by simp [written, mem_partUnless])
  includes := part_of_mem_iff d.includes.isEmpty (texts d.includes) rfl List.isEmpty_iff.mp
    (by simp [written, mem_partUnless])
  excludes := part_of_mem_iff d.excludes.isEmpty (texts d.excludes) rfl List.isEmpty_iff.mp
    (by simp [written, mem_partUnless])

/-- What is written is a record with the parts that are not empty. -/
theorem spells_toJson (d : Definition) : Spells d.toJson d :=
  have keys := d.keys_written_sublist
  ⟨d.written, .object (fun _ member => keys.subset (List.mem_map_of_mem member))
    (keys.nodup (by decide)), d.spelled_written⟩

theorem distinctKeys_toJson (d : Definition) : d.toJson.DistinctKeys := by
  refine ⟨d.keys_written_sublist.nodup (by decide), Json.membersDistinct_iff.mpr fun m member => ?_⟩
  replace member : m ∈ d.written := member
  simp only [written, List.mem_append, List.mem_singleton, mem_partUnless] at member
  rcases member with ((((rfl | ⟨-, rfl⟩) | ⟨-, rfl⟩) | ⟨-, rfl⟩) | ⟨-, rfl⟩) | ⟨-, rfl⟩
  · trivial
  · cases d.registrar <;> trivial
  · exact Filters.distinctKeys_toJson d.wanted
  · exact Filters.distinctKeys_toJson d.ignored
  · exact Json.distinctKeys_texts d.includes
  · exact Json.distinctKeys_texts d.excludes

end Definition

namespace Config

open Json (Record Part)

variable {c : Config} {j : Json} {parts : List (String × Json)}

/-- A record with one part. -/
def SpellsPart (name : String) (default : α) (Reads : Json → α → Prop) (j : Json) (a : α) : Prop :=
  ∃ parts, Record [name] j parts ∧ Part parts name default Reads a

/-- The parts are those of the configuration. -/
structure Spelled (parts : List (String × Json)) (c : Config) : Prop where
  database : Part parts "database" defaultDatabase
    (SpellsPart "path" defaultDatabase fun j path => j = .string path) c.database
  buffered : Part parts "rebuild" false
    (SpellsPart "buffer_results" false fun j b => j = .bool b) c.buffered
  lists : Part parts "lists" []
    (fun j defs => ∃ items, j = .array items ∧ List.Forall₂ Definition.Spells items defs) c.lists

/-- A record with the parts of the configuration. -/
def Spells (j : Json) (c : Config) : Prop :=
  ∃ parts, Record ["database", "rebuild", "lists"] j parts ∧ Spelled parts c

theorem readDatabase?_eq_some_iff {path : String} : readDatabase? j = some path ↔
    SpellsPart "path" defaultDatabase (fun j path => j = .string path) j path := by
  have distinctNames : ["path"].Nodup := by decide
  simp only [readDatabase?, Option.bind_eq_bind, Option.bind_eq_some_iff,
    Json.record?_eq_some_iff distinctNames, SpellsPart]
  refine exists_congr fun parts => and_congr_right fun record => ?_
  simp only [Json.withDefault?_eq_some_iff (record.distinct distinctNames), Json.text?_eq_some_iff]

theorem readRebuild?_eq_some_iff {b : Bool} : readRebuild? j = some b ↔
    SpellsPart "buffer_results" false (fun j b => j = .bool b) j b := by
  have distinctNames : ["buffer_results"].Nodup := by decide
  simp only [readRebuild?, Option.bind_eq_bind, Option.bind_eq_some_iff,
    Json.record?_eq_some_iff distinctNames, SpellsPart]
  refine exists_congr fun parts => and_congr_right fun record => ?_
  simp only [Json.withDefault?_eq_some_iff (record.distinct distinctNames), Json.flag?_eq_some_iff]

theorem forall₂_congr_of_mem {R S : α → β → Prop} {l : List α} {l' : List β}
    (same : ∀ a ∈ l, ∀ b, R a b ↔ S a b) : List.Forall₂ R l l' ↔ List.Forall₂ S l l' := by
  induction l generalizing l' with
  | nil => cases l' <;> simp
  | cons a rest ih =>
    cases l' with
    | nil => simp
    | cons b rest' =>
      rw [List.forall₂_cons, List.forall₂_cons, same a List.mem_cons_self,
        ih fun x member => same x (List.mem_cons_of_mem a member)]

/-- Reading accepts exactly the records that spell configurations. -/
theorem read?_eq_some_iff (distinctKeys : j.DistinctKeys) : read? j = some c ↔ Spells j c := by
  have distinctNames : ["database", "rebuild", "lists"].Nodup := by decide
  simp only [read?, Option.bind_eq_bind, Option.bind_eq_some_iff,
    Json.record?_eq_some_iff distinctNames, Spells]
  refine exists_congr fun parts => and_congr_right fun record => ?_
  have lists (defs : List Definition) :
      Part parts "lists" [] (fun j defs => ∃ items, j = .array items ∧
          List.Forall₂ (fun j d => Definition.read? j = some d) items defs) defs ↔
        Part parts "lists" [] (fun j defs => ∃ items, j = .array items ∧
          List.Forall₂ Definition.Spells items defs) defs := by
    refine Part.congr fun j member => exists_congr fun items => and_congr_right ?_
    rintro rfl
    have inside := Json.itemsDistinct_iff.mp (record.distinctKeys distinctKeys member)
    exact forall₂_congr_of_mem fun j member d => Definition.read?_eq_some_iff (inside j member)
  simp only [Json.withDefault?_eq_some_iff (record.distinct distinctNames),
    readDatabase?_eq_some_iff, readRebuild?_eq_some_iff, Json.list?_eq_some_iff, lists,
    Option.pure_def, Option.some.injEq]
  constructor
  · rintro ⟨database, d, buffered, b, defs, l, rfl⟩
    exact ⟨d, b, l⟩
  · rintro ⟨d, b, l⟩
    exact ⟨_, d, _, b, _, l, rfl⟩

/-- What is written has every part. -/
theorem spells_toJson (c : Config) : Spells c.toJson c := by
  refine ⟨_, .object ?_ ?_, ?_, ?_, ?_⟩
  · simp
  · simp
  · refine Or.inl ⟨_, List.mem_cons_self, _, .object (by simp) (by simp), ?_⟩
    exact Or.inl ⟨_, List.mem_cons_self, rfl⟩
  · refine Or.inl ⟨_, List.mem_cons_of_mem _ List.mem_cons_self, _, .object (by simp) (by simp), ?_⟩
    exact Or.inl ⟨_, List.mem_cons_self, rfl⟩
  · refine Or.inl ⟨_, List.mem_cons_of_mem _ (List.mem_cons_of_mem _ List.mem_cons_self), _, rfl, ?_⟩
    rw [List.forall₂_map_left_iff, List.forall₂_same]
    exact fun d _ => d.spells_toJson

theorem distinctKeys_toJson (c : Config) : c.toJson.DistinctKeys := by
  have lists : Json.ItemsDistinct (c.lists.map Definition.toJson) := by
    refine Json.itemsDistinct_iff.mpr fun j member => ?_
    obtain ⟨d, -, rfl⟩ := List.mem_map.mp member
    exact d.distinctKeys_toJson
  refine ⟨by simp, ?_, ?_, lists, trivial⟩
  · exact ⟨by simp, trivial, trivial⟩
  · exact ⟨by simp, trivial, trivial⟩

end Config

/-- Values are read from their spellings, and what is written of them is one. -/
structure RoundTrips (read : Json → Option α) (write : α → Json) (Spells : Json → α → Prop) :
    Prop where
  written : ∀ a, (write a).DistinctKeys ∧ read (write a) = some a
  /-- Reading tells apart and accepts what spells a value, and nothing else. -/
  spellings : ∀ j, j.DistinctKeys → ∀ a, read j = some a ↔ Spells j a
  /-- Writing what was read and reading it again changes nothing. -/
  settled : ∀ j a, read j = some a → read (write a) = read j

theorem RoundTrips.of {read : Json → Option α} {write : α → Json} {Spells : Json → α → Prop}
    (reads : ∀ j, j.DistinctKeys → ∀ a, read j = some a ↔ Spells j a)
    (distinct : ∀ a, (write a).DistinctKeys) (spells : ∀ a, Spells (write a) a) :
    RoundTrips read write Spells := by
  have written : ∀ a, read (write a) = some a := fun a =>
    (reads (write a) (distinct a) a).mpr (spells a)
  exact ⟨fun a => ⟨distinct a, written a⟩, reads, fun j a accepted => (written a).trans accepted.symm⟩

/-- **Definitions and configurations survive being written**: what is written reads as the value, and
so does every other spelling of it, with its parts in any order, with short keys and with empty parts
left out or not. -/
theorem documents_round_trip :
    RoundTrips Definition.read? Definition.toJson Definition.Spells ∧
    RoundTrips Config.read? Config.toJson Config.Spells :=
  ⟨.of (fun _ distinct _ => Definition.read?_eq_some_iff distinct) Definition.distinctKeys_toJson
      Definition.spells_toJson,
    .of (fun _ distinct _ => Config.read?_eq_some_iff distinct) Config.distinctKeys_toJson
      Config.spells_toJson⟩

/-- Filters with one field under both of its keys and one without a pattern. -/
def respelledFilters : List (String × Json) :=
  [("netname", Json.texts ["HOST-%"]), ("org.name", Json.texts []),
    ("ip.netname", Json.texts ["DC-%"])]

/-- A list with its parts out of order and some of them empty. -/
def respelled : Json :=
  .object [("exclude", Json.texts []), ("match", .object respelledFilters), ("registrar", .null),
    ("name", .string "hosting")]

/-- The list that `respelled` is. -/
def hosting : Definition :=
  { Definition.named "hosting" with
    wanted := (Filters.empty.set .netname (some ["HOST-%"])).set .orgName (some []) }

theorem documents_round_trip_respelled :
    respelled.DistinctKeys ∧ Definition.Spells respelled hosting ∧
    Definition.read? hosting.toJson = Definition.read? respelled := by
  have distinct : respelled.DistinctKeys := by
    simp [respelled, respelledFilters, Json.DistinctKeys, Json.MembersDistinct, Json.ItemsDistinct,
      Json.texts]
  have below : "netname" ≤ "org.name" ∧ ¬ "netname" ≤ "ip.netname" := by decide
  have sorted : Json.sortMembers respelledFilters = [("ip.netname", Json.texts ["DC-%"]),
      ("netname", Json.texts ["HOST-%"]), ("org.name", Json.texts [])] := by
    simp [Json.sortMembers, respelledFilters, List.mergeSort, List.MergeSort.Internal.splitInTwo, below]
  have filters : Filters.read? (Json.object respelledFilters) = some hosting.wanted := by
    show Filters.readEntries? .empty (Json.sortMembers respelledFilters) = _
    rw [sorted]
    rfl
  have read : Definition.read? respelled = some hosting := by
    show (do
      let wanted ← Filters.read? (Json.object respelledFilters)
      return (⟨"hosting", none, wanted, .empty, [], []⟩ : Definition)) = some hosting
    rw [filters]
    rfl
  exact ⟨distinct, (documents_round_trip.1.spellings respelled distinct hosting).mp read,
    documents_round_trip.1.settled respelled hosting read⟩

end NetRegistry
