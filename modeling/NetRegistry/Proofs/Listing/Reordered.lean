/-
# Proofs.Listing.Reordered -- definitions in another order

What a list selects and which lists cannot be placed after their includes do not
depend on the order in which the definitions are declared, although the build
order does, and although expansion cuts cycles where it comes back to its path.
Both are questions about what names refer to (`Definition.last?`), and when names
are distinct a permutation leaves that alone.

* `Definition.last?_perm`: names refer to the same definitions.
* `Definition.compile_perm`: so lists compile to the same predicates and notes.
* `Resolution.resolvable_iff_buildable`: the resolvable positions, told by names.

**Main theorem** `resolve_unresolved_perm`: the same names are unresolved.
-/
import Mathlib.Data.List.Nodup
import NetRegistry.Listing.Expansion
import NetRegistry.Proofs.Listing.BuildOrder

namespace NetRegistry

set_option autoImplicit false

namespace Definition

variable {defs others : List Definition} {name : String} {d : Definition}

/-! ## What names refer to -/

theorem last?_eq_some_iff (distinct : (defs.map (·.name)).Nodup) :
    last? defs name = some d ↔ d ∈ defs ∧ d.name = name := by
  refine ⟨last?_eq_some, ?_⟩
  rintro ⟨member, rfl⟩
  cases found : last? defs d.name with
  | none =>
    have absent := List.find?_eq_none.mp found d (List.mem_reverse.mpr member)
    exact absurd (beq_self_eq_true _) absent
  | some e =>
    obtain ⟨there, named⟩ := last?_eq_some found
    rw [List.inj_on_of_nodup_map distinct there member named]

/-- Definitions of distinct names can be declared in any order. -/
theorem last?_perm (distinct : (defs.map (·.name)).Nodup) (perm : defs.Perm others) :
    last? defs = last? others := by
  have distinct' := (perm.map (·.name)).nodup_iff.mp distinct
  funext name
  ext d
  rw [last?_eq_some_iff distinct, last?_eq_some_iff distinct', perm.mem_iff]

/-! ## What lists compile to -/

section Same

variable {path : List String} {list target : String} {rel : Relation}

theorem expandRef_of_unknown (unknown : last? defs target = none) :
    expandRef defs path list rel target = (none, [.unknown list rel target]) := by
  rw [expandRef]
  cases found : last? defs target with
  | none => rfl
  | some t => rw [unknown] at found; cases found

theorem expandRef_of_declared (declared : last? defs target = some d) :
    expandRef defs path list rel target =
      if d.name ∈ path then (none, [.onPath list rel target path])
      else
        match expand defs (path ++ [d.name]) d with
        | (none, notes) => (none, notes ++ [.selectsNothing list rel target])
        | (some p, notes) => (some p, notes) := by
  rw [expandRef]
  cases found : last? defs target with
  | none => rw [declared] at found; cases found
  | some t =>
    rw [declared] at found
    cases found
    by_cases onPath : d.name ∈ path
    · have held : path.contains d.name = true := by simpa using onPath
      exact (dif_pos held).trans (if_pos onPath).symm
    · have absent : ¬ path.contains d.name = true := by simpa using onPath
      exact (dif_neg absent).trans (if_neg onPath).symm

/-- A reference is expanded alike when the list that it means is. -/
theorem expandRef_congr (same : last? defs = last? others)
    (below : ∀ t, last? defs target = some t → t.name ∉ path →
      expand defs (path ++ [t.name]) t = expand others (path ++ [t.name]) t) :
    expandRef defs path list rel target = expandRef others path list rel target := by
  cases declared : last? defs target with
  | none => rw [expandRef_of_unknown declared, expandRef_of_unknown (same ▸ declared)]
  | some t =>
    rw [expandRef_of_declared declared, expandRef_of_declared (same ▸ declared)]
    by_cases onPath : t.name ∈ path
    · rw [if_pos onPath, if_pos onPath]
    · rw [if_neg onPath, if_neg onPath, below t declared onPath]

theorem expandRefs_congr {refs : List String}
    (each : ∀ target ∈ refs,
      expandRef defs path list rel target = expandRef others path list rel target) :
    expandRefs defs path list rel refs = expandRefs others path list rel refs := by
  induction refs with
  | nil => rw [expandRefs, expandRefs]
  | cons target rest ih =>
    have first := each target List.mem_cons_self
    have later := ih fun x member => each x (List.mem_cons_of_mem _ member)
    rw [expandRefs, expandRefs, first, later]

/-- Expansion sees the definitions through what names refer to only. -/
theorem expand_congr (same : last? defs = last? others) (path : List String) (d : Definition) :
    expand defs path d = expand others path d := by
  induction size : offPath defs path using Nat.strongRecOn generalizing path d with
  | ind n ih =>
    have each : ∀ rel target,
        expandRef defs path d.name rel target = expandRef others path d.name rel target := by
      intro rel target
      refine expandRef_congr same fun t declared off => ?_
      have fewer : offPath defs (path ++ [t.name]) < offPath defs path :=
        offPath_lt (last?_eq_some declared).1 (by simpa using off)
      exact ih _ (size ▸ fewer) _ t rfl
    rw [expand, expand, expandRefs_congr fun x _ => each .includes x,
      expandRefs_congr fun x _ => each .excludes x]

theorem compile_congr (same : last? defs = last? others) (name : String) :
    compile defs name = compile others name := by
  rw [compile, compile, same]
  cases last? others name with
  | none => rfl
  | some d => exact expand_congr same _ d

end Same

/-- Lists select the same, and the same is noted of them, in whatever order they are declared. -/
theorem compile_perm (distinct : (defs.map (·.name)).Nodup) (perm : defs.Perm others) :
    compile defs = compile others :=
  funext (compile_congr (last?_perm distinct perm))

/-! ## Lists whose includes come to an end -/

/-- The least set of names that refer to a definition whose includes are all in the set. -/
inductive Buildable (defs : List Definition) : String → Prop
  | intro {name : String} {d : Definition} (declared : last? defs name = some d)
      (includes : ∀ x ∈ d.includes, Buildable defs x) : Buildable defs name

theorem Buildable.congr (same : last? defs = last? others) (buildable : Buildable defs name) :
    Buildable others name := by
  induction buildable with
  | intro declared _ ih => exact .intro (same ▸ declared) ih

theorem buildable_perm (distinct : (defs.map (·.name)).Nodup) (perm : defs.Perm others) :
    Buildable defs name ↔ Buildable others name := by
  have same := last?_perm distinct perm
  exact ⟨.congr same, .congr same.symm⟩

end Definition

namespace Resolution

open Definition (RefersTo Buildable)

variable {defs : List Definition} {name : String} {d : Definition} {i : Nat}

/-- The position that a name refers to holds the definition that it refers to. -/
theorem last?_eq_some_iff_refersTo :
    Definition.last? defs name = some d ↔ ∃ i, RefersTo defs name i ∧ defs[i]? = some d := by
  simp only [← lastIndex?_eq_some_iff, Definition.last?, Definition.lastIndex?,
    List.find?_eq_bind_findIdx?_getElem?, Option.map_eq_some_iff, Option.bind_eq_some_iff]
  constructor
  · rintro ⟨k, found, at_⟩
    have within := (List.getElem?_eq_some_iff.mp at_).1
    rw [List.length_reverse] at within
    rw [List.getElem?_reverse within] at at_
    exact ⟨_, ⟨k, found, rfl⟩, at_⟩
  · rintro ⟨_, ⟨k, found, rfl⟩, at_⟩
    have within := (List.findIdx?_eq_some_iff_getElem.mp found).1
    rw [List.length_reverse] at within
    exact ⟨k, found, by rwa [List.getElem?_reverse within]⟩

theorem RefersTo.last? (refers : RefersTo defs name i) (at_ : defs[i]? = some d) :
    Definition.last? defs name = some d :=
  last?_eq_some_iff_refersTo.mpr ⟨i, refers, at_⟩

theorem Resolvable.buildable (resolvable : Resolvable defs i) (refers : RefersTo defs name i) :
    Buildable defs name := by
  induction resolvable generalizing name with
  | intro at_ declared _ ih =>
    refine .intro (RefersTo.last? refers at_) fun x inside => ?_
    obtain ⟨j, refersX⟩ := declared x inside
    exact ih x inside j refersX refersX

theorem resolvable_of_buildable (buildable : Buildable defs name)
    (refers : RefersTo defs name i) : Resolvable defs i := by
  induction buildable generalizing i with
  | @intro name d declared includes ih =>
    obtain ⟨e, at_, -⟩ := refers.named
    have same := RefersTo.last? refers at_
    rw [declared] at same
    cases same
    refine .intro at_ (fun x inside => ?_) fun x inside j refersX => ih x inside refersX
    cases includes x inside with
    | intro declaredX =>
      obtain ⟨j, refersX, -⟩ := last?_eq_some_iff_refersTo.mp declaredX
      exact ⟨j, refersX⟩

/-- When names are distinct, a position is resolvable when the name at it is buildable. -/
theorem resolvable_iff_buildable (distinct : (defs.map (·.name)).Nodup)
    (at_ : defs[i]? = some d) : Resolvable defs i ↔ Buildable defs d.name := by
  have refers : RefersTo defs d.name i := by
    have found := (Definition.last?_eq_some_iff distinct).mpr
      ⟨List.mem_of_getElem? at_, rfl⟩
    obtain ⟨j, refers, there⟩ := last?_eq_some_iff_refersTo.mp found
    obtain ⟨within, here⟩ := List.getElem?_eq_some_iff.mp at_
    obtain ⟨withinJ, hereJ⟩ := List.getElem?_eq_some_iff.mp there
    -- Both positions hold a definition of that name, so they are one.
    have once := (distinct.of_map).getElem_inj_iff.mp (here.trans hereJ.symm)
    exact once ▸ refers
  exact ⟨fun resolvable => resolvable.buildable refers, (resolvable_of_buildable · refers)⟩

/-! ## Unresolved names -/

theorem mem_unresolved_iff (distinct : (defs.map (·.name)).Nodup) :
    name ∈ (resolve defs).unresolved ↔
      name ∈ defs.map (·.name) ∧ ¬ Buildable defs name := by
  have unplaced : ∀ {i d}, defs[i]? = some d →
      (i ∈ leftOver defs (placed defs) ↔ ¬ Buildable defs d.name) := by
    intro i d at_
    have within := (List.getElem?_eq_some_iff.mp at_).1
    rw [← resolvable_iff_buildable distinct at_, ← mem_placed_iff, leftOver, List.mem_filter,
      List.mem_range]
    simp [within]
  show name ∈ ((leftOver defs (placed defs)).filterMap (defs[·]?)).map (·.name) ↔ _
  simp only [List.mem_map, List.mem_filterMap]
  constructor
  · rintro ⟨d, ⟨i, left, at_⟩, rfl⟩
    exact ⟨⟨d, List.mem_of_getElem? at_, rfl⟩, (unplaced at_).mp left⟩
  · rintro ⟨⟨d, member, rfl⟩, stuck⟩
    obtain ⟨i, at_⟩ := List.mem_iff_getElem?.mp member
    exact ⟨d, ⟨i, (unplaced at_).mpr stuck, at_⟩, rfl⟩

theorem unresolved_nodup (distinct : (defs.map (·.name)).Nodup) :
    (resolve defs).unresolved.Nodup := by
  have kept := (List.filter_sublist (l := List.range defs.length)
    (p := fun i => !(placed defs).contains i)).filterMap (defs[·]?)
  rw [filterMap_getElem?_range] at kept
  exact distinct.sublist (kept.map _)

end Resolution

open Resolution

/-- **Unresolved names** are the same in whatever order the definitions are declared. -/
theorem resolve_unresolved_perm {defs others : List Definition}
    (distinct : (defs.map (·.name)).Nodup) (perm : defs.Perm others) :
    (resolve defs).unresolved.Perm (resolve others).unresolved := by
  have names := perm.map (·.name)
  have distinct' := names.nodup_iff.mp distinct
  refine (List.perm_ext_iff_of_nodup (unresolved_nodup distinct)
    (unresolved_nodup distinct')).mpr fun name => ?_
  rw [mem_unresolved_iff distinct, mem_unresolved_iff distinct', names.mem_iff,
    Definition.buildable_perm distinct perm]

end NetRegistry
