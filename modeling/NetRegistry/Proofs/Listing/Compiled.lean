/-
# Proofs.Listing.Compiled -- which lists have a predicate, and of what shape

Expansion skips a reference to a list on the path, so what a list is expanded to
depends on where it is met.  Whether there is anything to select does not:

* `Definition.expandWithin_eq`: expansion goes no further down than there are
  definitions, and only along paths without repetition.
* `Definition.selects_iff`: below a path a list selects something when includes
  that avoid the path lead to a list that selects directly.  Going on from the
  last visit of a list shows that avoiding it loses no target
  (`reflTransGen_avoiding`).
* `Definition.branching_expand`: what is selected is never written as a junction
  of fewer than two terms, so that no constant stands in its text
  (`Predicate.Branching.constantFree`).

**Main theorem** `Definition.compile_selects`.
-/
import NetRegistry.Proofs.Condition.Rendered
import NetRegistry.Proofs.Listing.Membership
import NetRegistry.Proofs.Listing.Reordered

namespace NetRegistry

set_option autoImplicit false

namespace Definition

variable {defs : List Definition} {path : List String} {name : String} {d : Definition}

/-! ## How far expansion goes -/

/-- What the references of a list expand to, given what each does. -/
def gather (find : String → Option (Option Predicate × List ExpansionNote)) :
    List String → Option (List Predicate × List ExpansionNote)
  | [] => some ([], [])
  | target :: rest => do
      let (found, notes) ← find target
      let (later, moreNotes) ← gather find rest
      return (found.toList ++ later, notes ++ moreNotes)

/-- What one reference expands to, given how the list that it means is expanded. -/
def followRef (defs : List Definition)
    (below : List String → Definition → Option (Option Predicate × List ExpansionNote))
    (path : List String) (list : String) (rel : Relation) (target : String) :
    Option (Option Predicate × List ExpansionNote) :=
  match last? defs target with
  | none => some (none, [.unknown list rel target])
  | some t =>
      if t.name ∈ path then some (none, [.onPath list rel target path])
      else
        (below (path ++ [t.name]) t).map fun
          | (none, notes) => (none, notes ++ [.selectsNothing list rel target])
          | (some p, notes) => (some p, notes)

/-- Expansion that is given up (`none`) where it goes down more than so many levels, or along a
path that repeats a name. -/
def expandWithin (defs : List Definition) :
    Nat → List String → Definition → Option (Option Predicate × List ExpansionNote)
  | 0, _, _ => none
  | levels + 1, path, d =>
      if path.Nodup then do
        let follow := followRef defs (expandWithin defs levels) path d.name
        let (added, notes) ← gather (follow .includes) d.includes
        let added := d.direct?.toList ++ added
        if added.isEmpty then return (none, notes)
        else
          let (removed, moreNotes) ← gather (follow .excludes) d.excludes
          return (combine? added removed, notes ++ moreNotes)
      else none

/-- Compile a list by an expansion that may be given up. -/
def compileWithin (defs : List Definition) (levels : Nat) (name : String) :
    Option (Option Predicate × List ExpansionNote) :=
  match last? defs name with
  | none => some (none, [])
  | some d => expandWithin defs levels [d.name] d

section Within

variable {list target : String} {rel : Relation} {refs : List String}
  {find : String → Option (Option Predicate × List ExpansionNote)}
  {below : List String → Definition → Option (Option Predicate × List ExpansionNote)}

theorem gather_eq (each : ∀ x, find x = some (expandRef defs path list rel x)) :
    gather find refs = some (expandRefs defs path list rel refs) := by
  induction refs with
  | nil => rw [gather, expandRefs]
  | cons x rest ih =>
    rw [expandRefs]
    simp [gather, each x, ih]

theorem followRef_eq (known : ∀ t, last? defs target = some t → t.name ∉ path →
      below (path ++ [t.name]) t = some (expand defs (path ++ [t.name]) t)) :
    followRef defs below path list rel target = some (expandRef defs path list rel target) := by
  cases declared : last? defs target with
  | none => simp [followRef, declared, expandRef_of_unknown declared]
  | some t =>
    rw [expandRef_of_declared declared]
    by_cases onPath : t.name ∈ path
    · simp [followRef, declared, onPath]
    · have below := known t declared onPath
      rcases answer : expand defs (path ++ [t.name]) t with ⟨p | p, notes⟩ <;>
        simp [followRef, declared, onPath, below, answer]

theorem expandWithin_eq (levels : Nat) (enough : offPath defs path < levels)
    (once : path.Nodup) : expandWithin defs levels path d = some (expand defs path d) := by
  induction levels generalizing path d with
  | zero => omega
  | succ levels ih =>
    have follow : ∀ rel x, followRef defs (expandWithin defs levels) path d.name rel x =
        some (expandRef defs path d.name rel x) := by
      intro rel x
      apply followRef_eq
      intro t declared off
      have fewer : offPath defs (path ++ [t.name]) < offPath defs path :=
        offPath_lt (last?_eq_some declared).1 (by simpa using off)
      apply ih
      · omega
      · rw [List.nodup_append]
        refine ⟨once, by simp, ?_⟩
        intro x member y same
        rw [List.mem_singleton.mp same]
        rintro rfl
        exact off member
    rw [expandWithin, if_pos once, expand]
    simp only [gather_eq (follow .includes), gather_eq (follow .excludes), Option.bind_eq_bind,
      Option.bind_some]
    split <;> rfl

/-- As many levels as there are definitions are enough. -/
theorem compileWithin_eq (defs : List Definition) (name : String) :
    compileWithin defs defs.length name = some (compile defs name) := by
  cases declared : last? defs name with
  | none => simp [compileWithin, compile, declared]
  | some d =>
    simp only [compileWithin, compile, declared]
    apply expandWithin_eq
    · have member := (last?_eq_some declared).1
      -- The list itself is on the path.
      have off : offPath defs ([] ++ [d.name]) < offPath defs [] := offPath_lt member (by simp)
      have most : offPath defs [] ≤ defs.length := List.countP_le_length
      rw [List.nil_append] at off
      omega
    · simp

end Within

/-! ## What has a predicate -/

/-- The list is declared and expands to something below the path. -/
def Selects (defs : List Definition) (path : List String) (name : String) : Prop :=
  ∃ d, last? defs name = some d ∧ (expand defs path d).1.isSome = true

theorem Selects.declared (selects : Selects defs path name) : last? defs name ≠ none := by
  obtain ⟨d, declared, -⟩ := selects
  exact declared_ne_none declared

theorem isSome_compile_iff : (compile defs name).1.isSome = true ↔ Selects defs [name] name :=
  compile_iff (P := fun answer => answer.1.isSome = true) (by simp)

theorem isSome_combine? (added removed : List Predicate) :
    (combine? added removed).isSome = true ↔ added ≠ [] := by
  unfold combine?
  split
  · simp_all
  · split <;> simp_all

theorem isSome_expandRef_iff {list target : String} {rel : Relation} :
    (expandRef defs path list rel target).1.isSome = true ↔
      target ∉ path ∧ Selects defs (path ++ [target]) target :=
  expandRef_iff (P := (·.isSome = true)) (by simp)

theorem expandRefs_ne_nil_iff (list : String) (rel : Relation) {refs : List String} :
    (expandRefs defs path list rel refs).1 ≠ [] ↔
      ∃ x ∈ refs, x ∉ path ∧ Selects defs (path ++ [x]) x := by
  constructor
  · intro some
    obtain ⟨p, member⟩ := List.exists_mem_of_ne_nil _ some
    obtain ⟨x, inside, found⟩ := mem_expandRefs_iff.mp member
    exact ⟨x, inside, isSome_expandRef_iff.mp (Option.isSome_of_mem found)⟩
  · rintro ⟨x, inside, followed⟩
    obtain ⟨p, found⟩ := Option.isSome_iff_exists.mp (isSome_expandRef_iff.mpr followed)
    exact List.ne_nil_of_mem (mem_expandRefs_iff.mpr ⟨x, inside, found⟩)

theorem isSome_expand_iff : (expand defs path d).1.isSome = true ↔
    d.selectsDirectly = true ∨ ∃ x ∈ d.includes, x ∉ path ∧ Selects defs (path ++ [x]) x := by
  rw [← expandRefs_ne_nil_iff d.name .includes, expand]
  have direct : d.direct?.toList ≠ [] ↔ d.selectsDirectly = true := by
    unfold direct?
    split <;> simp_all
  rw [← direct, ← not_and_or, ← List.append_eq_nil_iff, ← List.isEmpty_iff]
  simp only
  split
  · rename_i nothing
    simp [nothing]
  · rename_i some
    rw [isSome_combine?, ne_eq, ← List.isEmpty_iff]

/-- A walk need not come back to where it starts. -/
theorem reflTransGen_avoiding {α : Type} {r : α → α → Prop} {a b : α}
    (walk : Relation.ReflTransGen r a b) :
    Relation.ReflTransGen (fun u v => r u v ∧ v ≠ a) a b := by
  induction walk with
  | refl => exact .refl
  | @tail u v _ edge ih =>
    by_cases back : v = a
    · rw [back]
    · exact ih.tail ⟨edge, back⟩

/-- Below a path, a list selects something when includes off the path lead to a list that does so
by itself. -/
theorem selects_iff : Selects defs path name ↔ ∃ target d,
    Relation.ReflTransGen (fun u v => Includes defs u v ∧ v ∉ path) name target ∧
      last? defs target = some d ∧ d.selectsDirectly = true := by
  induction size : offPath defs path using Nat.strongRecOn generalizing path name with
  | ind n ih =>
    have below : ∀ x, last? defs x ≠ none → x ∉ path →
        (Selects defs (path ++ [x]) x ↔ ∃ target d,
          Relation.ReflTransGen (fun u v => Includes defs u v ∧ v ∉ path ++ [x]) x target ∧
            last? defs target = some d ∧ d.selectsDirectly = true) := by
      intro x declared off
      have fewer := offPath_append_lt declared off
      exact ih _ (size ▸ fewer) rfl
    constructor
    · rintro ⟨d, declared, some⟩
      rcases isSome_expand_iff.mp some with direct | ⟨x, member, off, selects⟩
      · exact ⟨name, d, .refl, declared, direct⟩
      · obtain ⟨target, e, walk, found, direct⟩ := (below x selects.declared off).mp selects
        have edge : Includes defs name x := ⟨d, declared, member, selects.declared⟩
        refine ⟨target, e, .head ⟨edge, off⟩ (walk.lift id ?_), found, direct⟩
        rintro u v ⟨edge, off⟩
        exact ⟨edge, fun member => off (List.mem_append_left _ member)⟩
    · rintro ⟨target, e, walk, found, direct⟩
      rcases walk.cases_head with rfl | ⟨x, ⟨⟨d, declared, member, known⟩, off⟩, walk⟩
      · exact ⟨e, found, isSome_expand_iff.mpr (.inl direct)⟩
      · refine ⟨d, declared, isSome_expand_iff.mpr (.inr ⟨x, member, off, ?_⟩)⟩
        -- From its last visit of `x` on, the walk is one below `x`.
        refine (below x known off).mpr ⟨target, e, (reflTransGen_avoiding walk).lift id ?_, found,
          direct⟩
        rintro u v ⟨⟨edge, off⟩, other⟩
        refine ⟨edge, fun member => ?_⟩
        rcases List.mem_append.mp member with onPath | same
        · exact off onPath
        · exact other (List.mem_singleton.mp same)

theorem isSome_compile_iff_reaches : (compile defs name).1.isSome = true ↔
    last? defs name ≠ none ∧ ∃ target d,
      Relation.ReflTransGen (Includes defs) name target ∧ last? defs target = some d ∧
        (d.registrar ≠ none ∨ ∃ f, d.wanted.patterns f ≠ []) := by
  simp only [isSome_compile_iff, ← selectsDirectly_iff]
  constructor
  · intro selects
    obtain ⟨target, d, walk, rest⟩ := selects_iff.mp selects
    exact ⟨selects.declared, target, d, walk.lift id fun _ _ edge => edge.1, rest⟩
  · rintro ⟨-, target, d, walk, rest⟩
    refine selects_iff.mpr ⟨target, d, (reflTransGen_avoiding walk).lift id ?_, rest⟩
    rintro u v ⟨edge, other⟩
    exact ⟨edge, by simpa using other⟩

end Definition

/-! ## Junctions of several terms -/

namespace Predicate

mutual

/-- Every conjunction and every disjunction in the predicate has at least two terms. -/
def Branching : Predicate → Prop
  | .like _ _ => True
  | .registrar _ => True
  | .and terms => 2 ≤ terms.length ∧ BranchingAll terms
  | .or terms => 2 ≤ terms.length ∧ BranchingAll terms
  | .not inner => inner.Branching

def BranchingAll : List Predicate → Prop
  | [] => True
  | p :: rest => p.Branching ∧ BranchingAll rest

end

theorem branchingAll_iff {terms : List Predicate} :
    BranchingAll terms ↔ ∀ p ∈ terms, p.Branching := by
  induction terms with
  | nil => simp [BranchingAll]
  | cons p rest ih => simp [BranchingAll, ih]

theorem branching_any {terms : List Predicate} (some : terms ≠ [])
    (each : ∀ p ∈ terms, p.Branching) : (any terms).Branching := by
  match terms with
  | [] => exact absurd rfl some
  | [p] => exact each p (by simp)
  | p :: q :: rest => exact ⟨by simp, branchingAll_iff.mpr each⟩

theorem branching_all {terms : List Predicate} (some : terms ≠ [])
    (each : ∀ p ∈ terms, p.Branching) : (all terms).Branching := by
  match terms with
  | [] => exact absurd rfl some
  | [p] => exact each p (by simp)
  | p :: q :: rest => exact ⟨by simp, branchingAll_iff.mpr each⟩

end Predicate

open Condition

theorem Field.integer_not_mem_tokens (field : Field) (k : Nat) :
    Token.integer k ∉ field.tokens := by
  cases field <;> simp [Field.tokens]

namespace Predicate

mutual

/-- No number stands among the words of the predicate. -/
theorem Branching.constantFree (n k : Nat) : (p : Predicate) → p.Branching →
    Token.integer k ∉ p.tokens n
  | .like field _, _ => by simp [tokens, field.integer_not_mem_tokens]
  | .registrar _, _ => by simp [tokens]
  | .and [], h => absurd h.1 (by simp)
  | .and (p :: rest), h => by
      simp [tokens, Branching.constantFree n k p h.2.1,
        BranchingAll.constantFree .and (n + p.leafCount) k rest h.2.2]
  | .or [], h => absurd h.1 (by simp)
  | .or (p :: rest), h => by
      simp [tokens, Branching.constantFree n k p h.2.1,
        BranchingAll.constantFree .or (n + p.leafCount) k rest h.2.2]
  | .not inner, h => by simp [tokens, Branching.constantFree n k inner h]

theorem BranchingAll.constantFree (op : Operator) (n k : Nat) : (terms : List Predicate) →
    BranchingAll terms → Token.integer k ∉ restTokens op n terms
  | [], _ => by simp [restTokens]
  | p :: rest, h => by
      simp [restTokens, Branching.constantFree n k p h.1,
        BranchingAll.constantFree op (n + p.leafCount) k rest h.2]

end

end Predicate

namespace Definition

variable {defs : List Definition} {path : List String} {name : String} {d : Definition}

theorem branching_like {f : Field} {patterns : List String} :
    ∀ p ∈ patterns.map (Predicate.like f), p.Branching := by
  intro p member
  obtain ⟨pattern, -, rfl⟩ := List.mem_map.mp member
  trivial

theorem branching_wantedTerms {filters : Filters} : ∀ p ∈ wantedTerms filters, p.Branching := by
  intro p member
  obtain ⟨f, kept, rfl⟩ := List.mem_map.mp member
  apply Predicate.branching_any
  · have nonempty := (List.mem_filter.mp kept).2
    simpa using nonempty
  · exact branching_like

theorem branching_ignored (used : d.hasIgnored = true) :
    (Predicate.any (likes d.ignored)).Branching := by
  apply Predicate.branching_any
  · obtain ⟨f, nonempty⟩ := Filters.hasPatterns_iff.mp used
    obtain ⟨pattern, listed⟩ := List.exists_mem_of_ne_nil _ nonempty
    exact List.ne_nil_of_mem
      (List.mem_flatMap.mpr ⟨f, f.mem_all, List.mem_map_of_mem listed⟩)
  · intro p member
    obtain ⟨f, -, inside⟩ := List.mem_flatMap.mp member
    exact branching_like p inside

theorem branching_direct? : ∀ p ∈ d.direct?, p.Branching := by
  intro p found
  unfold direct? at found
  split at found
  · rename_i selects
    obtain rfl := Option.some.inj found
    apply Predicate.branching_all
    · rcases selectsDirectly_iff.mp selects with registrar | ⟨f, nonempty⟩
      · obtain ⟨r, registrar⟩ := Option.ne_none_iff_exists'.mp registrar
        simp [registrar]
      · have kept : f ∈ Field.all.filter fun f => !(d.wanted.patterns f).isEmpty := by
          simp [f.mem_all, nonempty]
        have term : wantedTerms d.wanted ≠ [] := List.ne_nil_of_mem (List.mem_map_of_mem kept)
        simp [term]
    · intro q member
      rcases List.mem_append.mp member with own | ignored
      · rcases List.mem_append.mp own with registrar | wanted
        · obtain ⟨r, -, rfl⟩ := List.mem_map.mp registrar
          trivial
        · exact branching_wantedTerms q wanted
      · split at ignored
        · rename_i used
          obtain rfl := List.mem_singleton.mp ignored
          exact branching_ignored used
        · cases ignored
  · cases found

theorem branching_combine? {added removed : List Predicate} (adds : ∀ p ∈ added, p.Branching)
    (removes : ∀ p ∈ removed, p.Branching) : ∀ p ∈ combine? added removed, p.Branching := by
  intro p found
  unfold combine? at found
  split at found
  · cases found
  · rename_i some
    have all := Predicate.branching_any (by simpa using some) adds
    split at found
    · obtain rfl := Option.some.inj found
      exact all
    · rename_i less
      have none := Predicate.branching_any (by simpa using less) removes
      obtain rfl := Option.some.inj found
      exact ⟨by simp, all, none, trivial⟩

theorem branching_expandRefs {list : String} {rel : Relation} {refs : List String}
    (each : ∀ x, ∀ p ∈ (expandRef defs path list rel x).1, p.Branching) :
    ∀ p ∈ (expandRefs defs path list rel refs).1, p.Branching := by
  intro p member
  obtain ⟨x, -, found⟩ := mem_expandRefs_iff.mp member
  exact each x p found

theorem branching_expand : ∀ p ∈ (expand defs path d).1, p.Branching := by
  induction size : offPath defs path using Nat.strongRecOn generalizing path d with
  | ind n ih =>
    have each : ∀ rel x, ∀ p ∈ (expandRef defs path d.name rel x).1, p.Branching := by
      intro rel x p found
      obtain ⟨off, t, declared, inside⟩ := (expandRef_iff (P := (p ∈ ·)) (by simp)).mp found
      have fewer := offPath_append_lt (declared_ne_none declared) off
      exact ih _ (size ▸ fewer) rfl p inside
    intro p found
    rw [expand] at found
    simp only at found
    split at found
    · cases found
    · refine branching_combine? (fun q member => ?_) (branching_expandRefs (each .excludes)) p found
      rcases List.mem_append.mp member with own | included
      · exact branching_direct? q (Option.mem_toList.mp own)
      · exact branching_expandRefs (each .includes) q included

theorem branching_compile : ∀ p ∈ (compile defs name).1, p.Branching := by
  intro p found
  rw [compile] at found
  split at found
  · cases found
  · exact branching_expand p found

/-- **Compiling a list** comes to an end, no further down than there are definitions and along no
path that repeats a name.  There is a predicate exactly when includes lead from the list to one
that has a registrar or a pattern that is wanted, and then it has no junction of fewer than two
terms and no constant in its text. -/
theorem compile_selects (defs : List Definition) (name : String) :
    compileWithin defs defs.length name = some (compile defs name) ∧
    ((compile defs name).1.isSome = true ↔ last? defs name ≠ none ∧ ∃ target d,
      Relation.ReflTransGen (Includes defs) name target ∧ last? defs target = some d ∧
        (d.registrar ≠ none ∨ ∃ f, d.wanted.patterns f ≠ [])) ∧
    ∀ p ∈ (compile defs name).1, p.Branching ∧
      ∃ s, scan p.clause.sql = some s ∧ ∀ k, Token.integer k ∉ s.tokens := by
  refine ⟨compileWithin_eq defs name, isSome_compile_iff_reaches, ?_⟩
  intro p found
  have branching := branching_compile p found
  refine ⟨branching, _, p.scan_clause, fun k member => ?_⟩
  exact Predicate.Branching.constantFree 0 k p branching (List.mem_reverse.mp member)

/-- The lists of a cycle, of which one is declared twice and another refers to an unknown list. -/
theorem compile_selects_loops : ∃ p ∈ (compile loops "all").1, p.Branching ∧
    ∃ s, scan p.clause.sql = some s ∧ ∀ k, Token.integer k ∉ s.tokens := by
  obtain ⟨-, selects, shape⟩ := compile_selects loops "all"
  have reaches : Includes loops "all" "a" := ⟨_, rfl, by decide, by decide⟩
  have some := selects.mpr ⟨by decide, "a", _, .single reaches, rfl, .inr ⟨.netname, by decide⟩⟩
  obtain ⟨p, found⟩ := Option.isSome_iff_exists.mp some
  exact ⟨p, found, shape p found⟩

end Definition

end NetRegistry
