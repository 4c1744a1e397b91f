/-
# Proofs.Config.Names -- what validation says of the names of lists

Lists are *unambiguous* when their names are there, free of blanks and distinct and
none of their patterns is empty (`Config.Unambiguous`).  What is wrong with a list
behind others is told by `Config.Faults`: the checks have an order, and a fault
presupposes that the checks before it had nothing to complain of.

* `Config.firstFault?_eq_some_iff`, `Config.firstFault?_eq_none_iff`: validation goes
  through the lists in order and stops at the first fault.
* `Definition.getElem?_table`, `Definition.getElem?_positions`: tables of the lists by
  name, filled in order, hold the last list of each name.
* `Config.findIdx?_eq_lastIndex?`: where names are distinct, the first list of a name
  is the last.

**Main theorem** `Config.validate_unambiguous`.
-/
import Mathlib.Data.List.Induction
import Mathlib.Data.List.TakeWhile
import Std.Data.HashMap.Lemmas
import NetRegistry.Config
import NetRegistry.Proofs.Listing.Reordered
import NetRegistry.Proofs.Store.Sound

namespace NetRegistry

set_option autoImplicit false

open Text (isBlank trim)

/-- Nothing is left of a text that is all blanks. -/
theorem Text.trim_eq_nil_iff {cs : List Char} : trim cs = [] ↔ ∀ c ∈ cs, isBlank c = true := by
  rw [trim, List.reverse_eq_nil_iff, List.dropWhile_eq_nil_iff]
  simp only [List.mem_reverse]
  constructor
  · intro blank c member
    rw [← List.takeWhile_append_dropWhile (p := isBlank) (l := cs)] at member
    exact (List.mem_append.mp member).elim List.mem_takeWhile_imp (blank c)
  · exact fun blank c left => blank c ((List.dropWhile_sublist isBlank).subset left)

/-! ## Names and what they refer to -/

namespace Definition

variable {defs : List Definition} {name : String}

/-- The lists by name, entered one after the other. -/
def table (defs : List Definition) : Std.HashMap String Definition :=
  defs.foldl (fun entries d => entries.insert d.name d) ∅

/-- The positions of the lists by name, entered one after the other. -/
def positions (defs : List Definition) : Std.HashMap String Nat :=
  defs.zipIdx.foldl (fun entries (d, i) => entries.insert d.name i) ∅

theorem last?_concat (d : Definition) :
    last? (defs ++ [d]) name = if d.name = name then some d else last? defs name := by
  by_cases named : d.name = name <;> simp [last?, named]

theorem lastIndex?_concat (d : Definition) : lastIndex? (defs ++ [d]) name =
    if d.name = name then some defs.length else lastIndex? defs name := by
  rw [lastIndex?, lastIndex?, List.reverse_append, List.reverse_singleton, List.singleton_append,
    List.findIdx?_cons, List.length_append, List.length_singleton]
  by_cases named : d.name = name
  · simp [named]
  · rw [if_neg (by simpa using named), if_neg named, Option.map_map]
    congr 1
    funext k
    simp only [Function.comp]
    omega

/-- A later entry of a name replaces the earlier one. -/
theorem getElem?_table : (table defs)[name]? = last? defs name := by
  induction defs using List.reverseRecOn with
  | nil => simp [table, last?]
  | append_singleton defs d ih =>
    rw [last?_concat, ← ih, table, List.foldl_append, List.foldl_cons, List.foldl_nil,
      Std.HashMap.getElem?_insert]
    simp [table]

theorem getElem?_positions : (positions defs)[name]? = lastIndex? defs name := by
  induction defs using List.reverseRecOn with
  | nil => simp [positions, lastIndex?]
  | append_singleton defs d ih =>
    rw [lastIndex?_concat, ← ih, positions, List.zipIdx_append, List.foldl_append, Nat.zero_add,
      List.zipIdx_singleton, List.foldl_cons, List.foldl_nil, Std.HashMap.getElem?_insert]
    simp [positions]

/-- Some pattern of the list is the empty text. -/
def HasEmptyPattern (d : Definition) : Prop :=
  ∃ f, "" ∈ d.wanted.patterns f ∨ "" ∈ d.ignored.patterns f

end Definition

namespace Config

open Definition (last? lastIndex? table positions HasEmptyPattern)

variable {defs earlier rest : List Definition} {d : Definition} {name : String} {e : ConfigError}

/-- A name is there, and no character of it is a blank. -/
structure Solid (name : String) : Prop where
  named : name ≠ ""
  unbroken : ∀ c ∈ name.toList, isBlank c = false

/-- No check complains of the lists. -/
structure Unambiguous (defs : List Definition) : Prop where
  solid : ∀ d ∈ defs, Solid d.name
  distinct : (defs.map (·.name)).Nodup
  patterns : ∀ d ∈ defs, ¬ d.HasEmptyPattern

/-- What is wrong with a list that comes behind others. -/
inductive Faults (earlier : List Definition) (d : Definition) : ConfigError → Prop
  | emptyName (blank : ∀ c ∈ d.name.toList, isBlank c = true) : Faults earlier d .emptyName
  | blankInName (more : ∃ c ∈ d.name.toList, isBlank c = false)
      (blank : ∃ c ∈ d.name.toList, isBlank c = true) : Faults earlier d (.blankInName d.name)
  | duplicateList (solid : Solid d.name) (taken : ∃ other ∈ earlier, other.name = d.name) :
      Faults earlier d (.duplicateList d.name)
  | emptyPattern (solid : Solid d.name) (fresh : ∀ other ∈ earlier, other.name ≠ d.name)
      (empty : d.HasEmptyPattern) : Faults earlier d (.emptyPattern d.name)

/-- The first list with a fault has this one. -/
def FirstFault (defs : List Definition) (e : ConfigError) : Prop :=
  ∃ earlier d later, defs = earlier ++ d :: later ∧ Unambiguous earlier ∧ Faults earlier d e

/-! ## One list -/

theorem hasEmptyPattern_iff {p : Filters} : hasEmptyPattern p = true ↔ ∃ f, "" ∈ p.patterns f := by
  simp only [hasEmptyPattern, Filters.entries, Filters.patterns, List.any_filterMap, List.any_eq_true]
  constructor
  · rintro ⟨f, -, found⟩
    cases mentioned : p.get f with
    | none => simp [mentioned] at found
    | some patterns => exact ⟨f, by simpa [mentioned, String.isEmpty_iff] using found⟩
  · rintro ⟨f, found⟩
    refine ⟨f, f.mem_all, ?_⟩
    cases mentioned : p.get f with
    | none => simp [mentioned] at found
    | some patterns => simpa [mentioned, String.isEmpty_iff] using found

/-- The names of lists, the last one first, as validation collects them. -/
def namesOf (defs : List Definition) : List String := (defs.map (·.name)).reverse

theorem contains_namesOf :
    (namesOf earlier).contains name = true ↔ ∃ other ∈ earlier, other.name = name := by
  rw [List.contains_iff_mem, namesOf, List.mem_reverse, List.mem_map]

theorem trim_isEmpty_iff :
    (trim name.toList).isEmpty = true ↔ ∀ c ∈ name.toList, isBlank c = true := by
  rw [List.isEmpty_iff, Text.trim_eq_nil_iff]

/-- The first two checks together find out whether a name is solid. -/
theorem solid_iff : Solid name ↔
    ¬ (trim name.toList).isEmpty = true ∧ ¬ name.toList.any isBlank = true := by
  rw [trim_isEmpty_iff, List.any_eq_true]
  constructor
  · rintro ⟨named, unbroken⟩
    refine ⟨fun blank => ?_, fun ⟨c, member, blank⟩ => ?_⟩
    · obtain ⟨c, member⟩ := List.exists_mem_of_ne_nil _ (mt String.toList_eq_nil_iff.mp named)
      exact Bool.eq_false_iff.mp (unbroken c member) (blank c member)
    · exact Bool.eq_false_iff.mp (unbroken c member) blank
  · rintro ⟨some, none⟩
    refine ⟨?_, fun c member => Bool.eq_false_iff.mpr fun blank => none ⟨c, member, blank⟩⟩
    rintro rfl
    exact some fun c member => by simp at member

theorem emptyPattern_iff :
    (hasEmptyPattern d.wanted || hasEmptyPattern d.ignored) = true ↔ d.HasEmptyPattern := by
  rw [Bool.or_eq_true, hasEmptyPattern_iff, hasEmptyPattern_iff, HasEmptyPattern, exists_or]

theorem fault?_of_faults (faults : Faults earlier d e) : fault? (namesOf earlier) d = some e := by
  rw [fault?]
  cases faults with
  | emptyName blank => rw [if_pos (trim_isEmpty_iff.mpr blank)]
  | blankInName more blank =>
    have left : ¬ (trim d.name.toList).isEmpty = true := fun all =>
      let ⟨c, member, notBlank⟩ := more
      Bool.eq_false_iff.mp notBlank (trim_isEmpty_iff.mp all c member)
    rw [if_neg left, if_pos (List.any_eq_true.mpr blank)]
  | duplicateList solid taken =>
    obtain ⟨left, unbroken⟩ := solid_iff.mp solid
    rw [if_neg left, if_neg unbroken, if_pos (contains_namesOf.mpr taken)]
  | emptyPattern solid fresh empty =>
    obtain ⟨left, unbroken⟩ := solid_iff.mp solid
    have free : ¬ (namesOf earlier).contains d.name = true := fun taken =>
      let ⟨other, member, same⟩ := contains_namesOf.mp taken
      fresh other member same
    rw [if_neg left, if_neg unbroken, if_neg free, if_pos (emptyPattern_iff.mpr empty)]

theorem faults_of_fault? (found : fault? (namesOf earlier) d = some e) : Faults earlier d e := by
  rw [fault?] at found
  split at found
  · rename_i blank
    obtain rfl := Option.some.inj found
    exact .emptyName (trim_isEmpty_iff.mp blank)
  split at found
  · rename_i left blank
    obtain rfl := Option.some.inj found
    rw [trim_isEmpty_iff] at left
    refine .blankInName ?_ (List.any_eq_true.mp blank)
    simpa using left
  rename_i left unbroken
  have solid := solid_iff.mpr ⟨left, unbroken⟩
  split at found
  · rename_i taken
    obtain rfl := Option.some.inj found
    exact .duplicateList solid (contains_namesOf.mp taken)
  rename_i free
  split at found
  · rename_i empty
    obtain rfl := Option.some.inj found
    refine .emptyPattern solid (fun other member same => ?_) (emptyPattern_iff.mp empty)
    exact free (contains_namesOf.mpr ⟨other, member, same⟩)
  · cases found

theorem fault?_eq_some_iff : fault? (namesOf earlier) d = some e ↔ Faults earlier d e :=
  ⟨faults_of_fault?, fault?_of_faults⟩

theorem fault?_eq_none_iff : fault? (namesOf earlier) d = none ↔
    Solid d.name ∧ (∀ other ∈ earlier, other.name ≠ d.name) ∧ ¬ d.HasEmptyPattern := by
  have free : ¬ (namesOf earlier).contains d.name = true ↔ ∀ other ∈ earlier, other.name ≠ d.name := by
    rw [contains_namesOf]
    simp
  rw [solid_iff, ← free, ← emptyPattern_iff, fault?]
  split
  · simp_all
  split
  · simp_all
  split
  · simp_all
  split <;> simp_all

/-! ## All lists -/

theorem unambiguous_nil : Unambiguous [] := ⟨by simp, by simp, by simp⟩

theorem unambiguous_append_iff : Unambiguous (earlier ++ rest) ↔
    Unambiguous earlier ∧ Unambiguous rest ∧
      ∀ other ∈ earlier, ∀ d ∈ rest, other.name ≠ d.name := by
  constructor
  · rintro ⟨solid, distinct, patterns⟩
    rw [List.map_append, List.nodup_append] at distinct
    obtain ⟨first, second, apart⟩ := distinct
    refine ⟨⟨fun d member => solid d (List.mem_append_left _ member), first,
        fun d member => patterns d (List.mem_append_left _ member)⟩,
      ⟨fun d member => solid d (List.mem_append_right _ member), second,
        fun d member => patterns d (List.mem_append_right _ member)⟩, fun other there d member => ?_⟩
    exact apart other.name (List.mem_map_of_mem there) d.name (List.mem_map_of_mem member)
  · rintro ⟨first, second, apart⟩
    refine ⟨fun d member => (List.mem_append.mp member).elim (first.solid d) (second.solid d), ?_,
      fun d member => (List.mem_append.mp member).elim (first.patterns d) (second.patterns d)⟩
    rw [List.map_append, List.nodup_append]
    refine ⟨first.distinct, second.distinct, fun name before name' behind => ?_⟩
    obtain ⟨other, there, rfl⟩ := List.mem_map.mp before
    obtain ⟨d, member, rfl⟩ := List.mem_map.mp behind
    exact apart other there d member

/-- A list has no fault behind unambiguous ones when it leaves them so. -/
theorem fault?_eq_none_iff_unambiguous (sound : Unambiguous earlier) :
    fault? (namesOf earlier) d = none ↔ Unambiguous (earlier ++ [d]) := by
  rw [fault?_eq_none_iff, unambiguous_append_iff]
  constructor
  · rintro ⟨solid, fresh, full⟩
    exact ⟨sound, ⟨by simpa, by simp, by simpa⟩, by simpa using fresh⟩
  · rintro ⟨-, single, fresh⟩
    have member : d ∈ [d] := List.mem_singleton.mpr rfl
    exact ⟨single.solid d member, fun other there => fresh other there d member,
      single.patterns d member⟩

theorem namesOf_concat : namesOf (earlier ++ [d]) = d.name :: namesOf earlier := by
  simp [namesOf]

theorem firstFault?_eq_none_iff (sound : Unambiguous earlier) :
    firstFault? (namesOf earlier) rest = none ↔ Unambiguous (earlier ++ rest) := by
  induction rest generalizing earlier with
  | nil => simpa [firstFault?] using sound
  | cons d rest ih =>
    have whole : earlier ++ d :: rest = (earlier ++ [d]) ++ rest := by simp
    rw [firstFault?, ← namesOf_concat, whole]
    cases found : fault? (namesOf earlier) d with
    | none => exact ih ((fault?_eq_none_iff_unambiguous sound).mp found)
    | some e =>
      -- the list itself spoils what comes before it
      have spoiled : ¬ Unambiguous (earlier ++ [d]) := fun fine => by
        rw [(fault?_eq_none_iff_unambiguous sound).mpr fine] at found
        cases found
      rw [unambiguous_append_iff]
      simp [spoiled]

/-- The first member of a list is the one that is looked for, or it comes before that one. -/
theorem exists_split_cons_iff {α : Type} {a : α} {l : List α} {P : List α → α → List α → Prop} :
    (∃ before b later, a :: l = before ++ b :: later ∧ P before b later) ↔
      P [] a l ∨ ∃ before b later, l = before ++ b :: later ∧ P (a :: before) b later := by
  constructor
  · rintro ⟨before, b, later, split, holds⟩
    cases before with
    | nil =>
      obtain ⟨rfl, rfl⟩ := List.cons.inj split
      exact Or.inl holds
    | cons first before =>
      obtain ⟨rfl, rfl⟩ := List.cons.inj split
      exact Or.inr ⟨before, b, later, rfl, holds⟩
  · rintro (holds | ⟨before, b, later, rfl, holds⟩)
    · exact ⟨[], a, l, rfl, holds⟩
    · exact ⟨a :: before, b, later, rfl, holds⟩

/-- Behind unambiguous lists, validation stops at the first list that has a fault. -/
theorem firstFault?_eq_some_iff (sound : Unambiguous earlier) :
    firstFault? (namesOf earlier) rest = some e ↔ ∃ before d later, rest = before ++ d :: later ∧
      Unambiguous (earlier ++ before) ∧ Faults (earlier ++ before) d e := by
  induction rest generalizing earlier with
  | nil => simp [firstFault?]
  | cons d rest ih =>
    have first : Faults earlier d e ↔ fault? (namesOf earlier) d = some e :=
      fault?_eq_some_iff.symm
    rw [firstFault?, ← namesOf_concat, exists_split_cons_iff, List.append_nil, first]
    cases found : fault? (namesOf earlier) d with
    | none => simpa using ih ((fault?_eq_none_iff_unambiguous sound).mp found)
    | some e' =>
      -- no lists behind this one are unambiguous with it
      have spoiled (before : List Definition) : ¬ Unambiguous (earlier ++ d :: before) := by
        rw [List.append_cons, unambiguous_append_iff,
          ← fault?_eq_none_iff_unambiguous sound, found]
        simp
      simp [sound, spoiled]

/-! ## First and last -/

/-- Where names are distinct, a position is found from either end. -/
theorem findIdx?_eq_lastIndex? (distinct : (defs.map (·.name)).Nodup) :
    defs.findIdx? (·.name == name) = lastIndex? defs name := by
  induction defs using List.reverseRecOn with
  | nil => rfl
  | append_singleton defs d ih =>
    rw [List.map_append, List.nodup_append] at distinct
    obtain ⟨distinct, -, apart⟩ := distinct
    rw [Definition.lastIndex?_concat, ← ih distinct, List.findIdx?_append]
    by_cases named : d.name = name
    · have absent : defs.findIdx? (·.name == name) = none := by
        rw [List.findIdx?_eq_none_iff]
        intro other member
        have other_ne := apart other.name (List.mem_map_of_mem member) d.name (by simp)
        simpa [named] using other_ne
      simp [absent, named]
    · simp [named]

theorem find?_eq_last? (distinct : (defs.map (·.name)).Nodup) :
    defs.find? (·.name == name) = last? defs name := by
  ext d
  rw [Definition.last?_eq_some_iff distinct]
  constructor
  · intro found
    exact ⟨List.mem_of_find?_eq_some found, by simpa using List.find?_some found⟩
  · rintro ⟨member, rfl⟩
    exact find?_key distinct member

/-- Every way to look the name up gives the same list, at one position. -/
structure OneList (c : Config) (name : String) : Prop where
  listed : c.list? name = last? c.lists name
  table : c.list? name = (table c.lists)[name]?
  index : c.listIndex? name = lastIndex? c.lists name
  positions : c.listIndex? name = (positions c.lists)[name]?
  there : c.list? name = (c.listIndex? name).bind (c.lists[·]?)

theorem oneList {c : Config} (distinct : (c.lists.map (·.name)).Nodup) (name : String) :
    OneList c name where
  listed := find?_eq_last? distinct
  table := Definition.getElem?_table ▸ find?_eq_last? distinct
  index := findIdx?_eq_lastIndex? distinct
  positions := Definition.getElem?_positions ▸ findIdx?_eq_lastIndex? distinct
  there := List.find?_eq_bind_findIdx?_getElem?

/-- **Validation makes the names of lists unambiguous**: it accepts exactly the unambiguous lists and
otherwise gives the first fault, and in what it accepts the first list of a name is also the last. -/
theorem validate_unambiguous (c : Config) :
    (c.validate = .ok () ↔ Unambiguous c.lists) ∧
    (∀ e, c.validate = .error e ↔ ∃ fault, e = .config fault ∧ FirstFault c.lists fault) ∧
    (c.validate = .ok () → ∀ name, OneList c name) := by
  have none_iff : firstFault? (namesOf []) c.lists = none ↔ Unambiguous ([] ++ c.lists) :=
    firstFault?_eq_none_iff unambiguous_nil
  have some_iff (e : ConfigError) : firstFault? (namesOf []) c.lists = some e ↔
      ∃ before d later, c.lists = before ++ d :: later ∧
        Unambiguous ([] ++ before) ∧ Faults ([] ++ before) d e :=
    firstFault?_eq_some_iff unambiguous_nil
  simp only [List.nil_append] at none_iff some_iff
  have accepts : c.validate = .ok () ↔ Unambiguous c.lists := by
    rw [← none_iff, validate]
    show _ ↔ firstFault? [] c.lists = none
    cases firstFault? [] c.lists <;> simp
  refine ⟨accepts, fun e => ?_, fun ok => oneList (accepts.mp ok).distinct⟩
  rw [validate]
  show _ ↔ ∃ fault, e = .config fault ∧ FirstFault c.lists fault
  simp only [FirstFault, ← some_iff]
  show _ ↔ ∃ fault, e = .config fault ∧ firstFault? [] c.lists = some fault
  cases found : firstFault? [] c.lists <;> simp [eq_comm]

/-- Lists of which one refers to the other, with a field that has no pattern. -/
def layered : Config :=
  ⟨"registry.db", true, [(Definition.named "hosting").including "cloud",
    { Definition.named "cloud" with wanted := Filters.empty.set .netname (some []) }]⟩

/-- The third list has a taken name and an empty pattern, the fourth has a blank in its name. -/
def flawed : Config :=
  ⟨"registry.db", true, layered.lists ++
    [(Definition.named "cloud").wanting .orgName "", .named "two words"]⟩

theorem validate_unambiguous_layered :
    layered.validate = .ok () ∧ (∀ name, OneList layered name) ∧
    flawed.validate = .error (.config (.duplicateList "cloud")) ∧
    FirstFault flawed.lists (.duplicateList "cloud") := by
  have accepted : layered.validate = .ok () := rfl
  have refused : flawed.validate = .error (.config (.duplicateList "cloud")) := rfl
  obtain ⟨fault, same, first⟩ := ((validate_unambiguous flawed).2.1 _).mp refused
  cases same
  exact ⟨accepted, (validate_unambiguous layered).2.2 accepted, refused, first⟩

end Config

end NetRegistry
