/-
# Proofs.Listing.Direct -- what the conditions of a definition mean

`Definition.Passes` says in words of the definition what its own filters ask of
a netblock; the predicate written for them asks the same
(`Definition.satisfied_direct?_iff`).  `Satisfied` reads an optional predicate,
of which a missing one holds of nothing, and `satisfied_combine?_iff` says what
joining additions and removals means.
-/
import NetRegistry.Listing.Expansion

namespace NetRegistry

set_option autoImplicit false

variable (matches? : (pattern text : String) → Bool) (c : Candidate)

/-- There is a predicate and it holds of the candidate. -/
def Satisfied (p : Option Predicate) : Prop := ∃ q ∈ p, q.holds matches? c = true

@[simp] theorem not_satisfied_none : ¬ Satisfied matches? c none := by
  rintro ⟨q, member, -⟩
  cases member

@[simp] theorem satisfied_some {p : Predicate} :
    Satisfied matches? c (some p) ↔ p.holds matches? c = true := by
  simp [Satisfied]

theorem any_toList_iff {p : Option Predicate} :
    p.toList.any (·.holds matches? c) = true ↔ Satisfied matches? c p := by
  cases p <;> simp

namespace Filters

theorem hasPatterns_iff {p : Filters} : p.hasPatterns = true ↔ ∃ f, p.patterns f ≠ [] := by
  simp only [hasPatterns, List.any_eq_true, Bool.not_eq_true', List.isEmpty_eq_false_iff]
  constructor
  · rintro ⟨f, -, h⟩
    exact ⟨f, h⟩
  · rintro ⟨f, h⟩
    exact ⟨f, Field.mem_all f, h⟩

end Filters

namespace Definition

/-- The candidate passes the filters that the definition has of its own. -/
structure Passes (d : Definition) : Prop where
  /-- The definition has a registrar or some pattern that is wanted. -/
  selects : d.registrar ≠ none ∨ ∃ f, d.wanted.patterns f ≠ []
  registrar : ∀ r, d.registrar = some r → c.registrar = r
  wanted : ∀ f, d.wanted.patterns f ≠ [] →
    ∃ p ∈ d.wanted.patterns f, matches? p (c.attribute f) = true
  ignored : ∀ f, ∀ p ∈ d.ignored.patterns f, ¬ matches? p (c.attribute f) = true

theorem any_like_iff {f : Field} {patterns : List String} :
    (Predicate.any (patterns.map (.like f))).holds matches? c = true ↔
      ∃ p ∈ patterns, matches? p (c.attribute f) = true := by
  simp [Predicate.holds_any, Predicate.holds]

theorem all_wantedTerms_iff {p : Filters} :
    (wantedTerms p).all (·.holds matches? c) = true ↔
      ∀ f, p.patterns f ≠ [] → ∃ q ∈ p.patterns f, matches? q (c.attribute f) = true := by
  simp only [wantedTerms, List.all_map, List.all_eq_true, List.mem_filter, Bool.not_eq_true',
    List.isEmpty_eq_false_iff, Function.comp_apply, any_like_iff]
  exact ⟨fun h f some => h f ⟨Field.mem_all f, some⟩, fun h f both => h f both.2⟩

theorem any_likes_iff {p : Filters} :
    (Predicate.any (likes p)).holds matches? c = true ↔
      ∃ f, ∃ q ∈ p.patterns f, matches? q (c.attribute f) = true := by
  simp only [Predicate.holds_any, likes, List.any_flatMap, List.any_map, List.any_eq_true,
    Function.comp_apply, Predicate.holds]
  constructor
  · rintro ⟨f, -, h⟩
    exact ⟨f, h⟩
  · rintro ⟨f, h⟩
    exact ⟨f, Field.mem_all f, h⟩

theorem all_registrar_iff {r : Option String} :
    (r.toList.map Predicate.registrar).all (·.holds matches? c) = true ↔
      ∀ name, r = some name → c.registrar = name := by
  cases r <;> simp [Predicate.holds]

theorem selectsDirectly_iff {d : Definition} : d.selectsDirectly = true ↔
    d.registrar ≠ none ∨ ∃ f, d.wanted.patterns f ≠ [] := by
  rw [selectsDirectly, Bool.or_eq_true, Filters.hasPatterns_iff, Option.isSome_iff_ne_none, or_comm]

/-- The predicate of the filters asks what the filters ask. -/
theorem satisfied_direct?_iff {d : Definition} :
    Satisfied matches? c d.direct? ↔ d.Passes matches? c := by
  have ignores : (if d.hasIgnored then [Predicate.not (.any (likes d.ignored))] else []).all
      (·.holds matches? c) = true ↔
        ∀ f, ∀ p ∈ d.ignored.patterns f, ¬ matches? p (c.attribute f) = true := by
    have any := any_likes_iff matches? c (p := d.ignored)
    by_cases some : d.hasIgnored = true
    · rw [if_pos some]
      simp only [List.all_cons, List.all_nil, Bool.and_true, Predicate.holds, Bool.not_eq_true',
        ← Bool.not_eq_true, any]
      constructor
      · intro none f p member hit
        exact none ⟨f, p, member, hit⟩
      · rintro none ⟨f, p, member, hit⟩
        exact none f p member hit
    · rw [if_neg some]
      rw [hasIgnored, Filters.hasPatterns_iff] at some
      refine ⟨fun _ f p member _ => some ⟨f, fun empty => ?_⟩, fun _ => rfl⟩
      rw [empty] at member
      cases member
  rw [direct?]
  by_cases some : d.selectsDirectly = true
  · rw [if_pos some, satisfied_some, Predicate.holds_all, List.all_append, List.all_append,
      Bool.and_eq_true, Bool.and_eq_true, all_registrar_iff, all_wantedTerms_iff, ignores]
    constructor
    · rintro ⟨⟨reg, wanted⟩, ignored⟩
      exact ⟨selectsDirectly_iff.mp some, reg, wanted, ignored⟩
    · intro passes
      exact ⟨⟨passes.registrar, passes.wanted⟩, passes.ignored⟩
  · rw [if_neg some]
    exact ⟨fun none => absurd none (not_satisfied_none matches? c),
      fun passes => absurd (selectsDirectly_iff.mpr passes.selects) some⟩

/-- Joined conditions hold when something is added and nothing removed. -/
theorem satisfied_combine?_iff {added removed : List Predicate} :
    Satisfied matches? c (combine? added removed) ↔
      added.any (·.holds matches? c) = true ∧ ¬ removed.any (·.holds matches? c) = true := by
  rw [combine?]
  by_cases nothing : added.isEmpty = true
  · rw [if_pos nothing, List.isEmpty_iff.mp nothing]
    simp
  · rw [if_neg nothing]
    by_cases whole : removed.isEmpty = true
    · rw [if_pos whole, List.isEmpty_iff.mp whole, satisfied_some, Predicate.holds_any]
      simp
    · rw [if_neg whole, satisfied_some]
      simp [Predicate.holds, Predicate.holdsAll, Predicate.holds_any]

end Definition

end NetRegistry
