/-
# Proofs.Listing.Membership -- what a compiled list selects

The configured meaning of lists is a relation `member` between names and a
netblock: a netblock is a member of a list when a chain of includes leads to a
list whose own filters it passes, and no list on the chain excludes a list that
it is a member of (`Definition.Chain`, `Definition.IsMembership`).  Negation makes
this an equation and not a definition.  When no cycle of references runs through
an exclude (`Definition.Stratified`) it has exactly one solution, and the
compiled predicates are it (`Definition.isMembership_iff`).

Expansion skips a reference to a list on the path.  Three facts show that this
changes nothing:

* an excluded list never leads back to the path, so no exclude is skipped and
  names on the path that a list does not lead to do not matter
  (`expands_append_iff`, `expands_excluded_iff`);
* what is found below a path is found by a chain (`chain_of_expands`);
* a chain that avoids the path can be cut at the last visit of its next list, so
  it never needs a list twice (`expands_of_chain`).
-/
import Mathlib.Logic.Relation
import NetRegistry.Proofs.Listing.Direct
import NetRegistry.Text.Pattern

namespace NetRegistry

set_option autoImplicit false

namespace Definition

/-! ## References between lists -/

/-- The declared list `name` includes the declared list `target`. -/
def Includes (defs : List Definition) (name target : String) : Prop :=
  ∃ d, last? defs name = some d ∧ target ∈ d.includes ∧ last? defs target ≠ none

/-- The declared list `name` excludes the declared list `target`. -/
def Excludes (defs : List Definition) (name target : String) : Prop :=
  ∃ d, last? defs name = some d ∧ target ∈ d.excludes ∧ last? defs target ≠ none

/-- The declared list `name` refers to the declared list `target`. -/
def Refers (defs : List Definition) (name target : String) : Prop :=
  Includes defs name target ∨ Excludes defs name target

/-- References lead from `name` to `target`, possibly none. -/
abbrev LeadsTo (defs : List Definition) : String → String → Prop :=
  Relation.ReflTransGen (Refers defs)

/-- No cycle of references runs through an exclude: an excluded list never leads back. -/
def Stratified (defs : List Definition) : Prop :=
  ∀ name target, Excludes defs name target → ¬ LeadsTo defs target name

variable (matches? : (pattern text : String) → Bool) (c : Candidate) (defs : List Definition)

/-- The candidate is a member of no declared list that `d` excludes. -/
def Spares (member : String → Prop) (d : Definition) : Prop :=
  ∀ x ∈ d.excludes, last? defs x ≠ none → ¬ member x

/-- A chain of includes from the first name to a list whose own filters the candidate passes, on
which every list is declared and spares the candidate. -/
inductive Chain (member : String → Prop) : List String → Prop
  | last {name : String} {d : Definition} (declared : last? defs name = some d)
      (spares : Spares defs member d) (passes : d.Passes matches? c) : Chain member [name]
  | link {name next : String} {rest : List String} {d : Definition}
      (declared : last? defs name = some d) (spares : Spares defs member d)
      (includes : next ∈ d.includes) (later : Chain member (next :: rest)) :
      Chain member (name :: next :: rest)

/-- The relation is the configured membership: a candidate is a member of a list exactly when a
chain starts at the list. -/
def IsMembership (member : String → Prop) : Prop :=
  ∀ name, member name ↔ ∃ rest, Chain matches? c defs member (name :: rest)

/-- The declared list is expanded below a path to a predicate that holds of the candidate. -/
def Expands (path : List String) (name : String) : Prop :=
  ∃ d, last? defs name = some d ∧ Satisfied matches? c (expand defs path d).1

variable {matches? c defs} {path : List String} {name : String} {d : Definition}

theorem declared_ne_none (declared : last? defs name = some d) : last? defs name ≠ none := by
  rw [declared]; exact Option.some_ne_none d

/-- What holds of a compiled list, and not of an unknown one, holds of its expansion. -/
theorem compile_iff {P : Option Predicate × List ExpansionNote → Prop} (nothing : ¬ P (none, [])) :
    P (compile defs name) ↔ ∃ d, last? defs name = some d ∧ P (expand defs [name] d) := by
  rw [compile]
  cases declared : last? defs name with
  | none => simp [nothing]
  | some d => simp [(last?_eq_some declared).2]

theorem satisfied_compile_iff :
    Satisfied matches? c (compile defs name).1 ↔ Expands matches? c defs [name] name :=
  compile_iff (P := fun answer => Satisfied matches? c answer.1) (not_satisfied_none matches? c)

/-! ## One step of expansion -/

/-- What holds of the predicate that a reference adds holds of the expansion of a list off the
path. -/
theorem expandRef_iff {P : Option Predicate → Prop} (nothing : ¬ P none) {list target : String}
    {rel : Relation} : P (expandRef defs path list rel target).1 ↔ target ∉ path ∧
      ∃ d, last? defs target = some d ∧ P (expand defs (path ++ [target]) d).1 := by
  rw [expandRef]
  cases declared : last? defs target with
  | none => simp [nothing]
  | some t =>
    have named := (last?_eq_some declared).2
    simp only [Option.some.injEq, exists_eq_left', named]
    by_cases onPath : path.contains target = true
    · have member : target ∈ path := by simpa using onPath
      simp [member, nothing]
    · have absent : target ∉ path := by simpa using onPath
      rw [dif_neg onPath]
      rcases expand defs (path ++ [target]) t with ⟨p | p, notes⟩ <;> simp [absent]

theorem satisfied_expandRef_iff {list target : String} {rel : Relation} :
    Satisfied matches? c (expandRef defs path list rel target).1 ↔
      target ∉ path ∧ Expands matches? c defs (path ++ [target]) target :=
  expandRef_iff (not_satisfied_none matches? c)

theorem mem_expandRefs_iff {list : String} {rel : Relation} {refs : List String} {p : Predicate} :
    p ∈ (expandRefs defs path list rel refs).1 ↔
      ∃ x ∈ refs, p ∈ (expandRef defs path list rel x).1 := by
  induction refs with
  | nil => simp [expandRefs]
  | cons x rest ih =>
    rw [expandRefs]
    simp [ih]

theorem any_expandRefs_iff {list : String} {rel : Relation} {refs : List String} :
    (expandRefs defs path list rel refs).1.any (·.holds matches? c) = true ↔
      ∃ x ∈ refs, x ∉ path ∧ Expands matches? c defs (path ++ [x]) x := by
  induction refs with
  | nil => simp [expandRefs]
  | cons target rest ih =>
    rw [expandRefs]
    simp only [List.any_append, Bool.or_eq_true, any_toList_iff, satisfied_expandRef_iff, ih,
      List.mem_cons, exists_eq_or_imp]

theorem satisfied_expand_iff :
    Satisfied matches? c (expand defs path d).1 ↔
      (d.Passes matches? c ∨
        ∃ x ∈ d.includes, x ∉ path ∧ Expands matches? c defs (path ++ [x]) x) ∧
      ∀ y ∈ d.excludes, y ∉ path → ¬ Expands matches? c defs (path ++ [y]) y := by
  have added : (d.direct?.toList ++ (expandRefs defs path d.name .includes d.includes).1).any
      (·.holds matches? c) = true ↔ (d.Passes matches? c ∨
        ∃ x ∈ d.includes, x ∉ path ∧ Expands matches? c defs (path ++ [x]) x) := by
    rw [List.any_append, Bool.or_eq_true, any_toList_iff, satisfied_direct?_iff,
      any_expandRefs_iff]
  rw [expand]
  simp only
  by_cases nothing :
      (d.direct?.toList ++ (expandRefs defs path d.name .includes d.includes).1).isEmpty = true
  · rw [if_pos nothing]
    rw [List.isEmpty_iff.mp nothing] at added
    exact ⟨fun none => absurd none (not_satisfied_none matches? c),
      fun both => absurd (added.mpr both.1) (by simp)⟩
  · rw [if_neg nothing]
    simp only
    rw [satisfied_combine?_iff, added, any_expandRefs_iff]
    simp only [not_exists, not_and]

/-- The meaning of one expansion, with the references that are skipped left out. -/
theorem expands_iff :
    Expands matches? c defs path name ↔ ∃ d, last? defs name = some d ∧
      (d.Passes matches? c ∨
        ∃ x ∈ d.includes, x ∉ path ∧ Expands matches? c defs (path ++ [x]) x) ∧
      ∀ y ∈ d.excludes, y ∉ path → ¬ Expands matches? c defs (path ++ [y]) y := by
  constructor
  · rintro ⟨d, declared, holds⟩
    exact ⟨d, declared, satisfied_expand_iff.mp holds⟩
  · rintro ⟨d, declared, holds⟩
    exact ⟨d, declared, satisfied_expand_iff.mpr holds⟩

theorem Expands.declared (h : Expands matches? c defs path name) : last? defs name ≠ none := by
  obtain ⟨d, declared, -⟩ := h
  exact declared_ne_none declared

/-- Going down to a declared list off the path leaves fewer lists off it. -/
theorem offPath_append_lt (declared : last? defs name ≠ none) (off : name ∉ path) :
    offPath defs (path ++ [name]) < offPath defs path := by
  obtain ⟨d, found⟩ := Option.ne_none_iff_exists'.mp declared
  obtain ⟨member, named⟩ := last?_eq_some found
  rw [← named] at off ⊢
  exact offPath_lt member (by simpa using off)

/-! ## Paths that do not matter -/

/-- Names on the path that the list does not lead to change nothing. -/
theorem expands_append_iff {extra : List String} (apart : ∀ p ∈ extra, ¬ LeadsTo defs name p) :
    Expands matches? c defs (extra ++ path) name ↔ Expands matches? c defs path name := by
  induction size : offPath defs path using Nat.strongRecOn generalizing path name with
  | ind n ih =>
    have shorter := @expands_iff matches? c defs path name
    rw [expands_iff, shorter]
    -- a reference is followed below the longer path exactly when it is below the shorter one
    have followed : ∀ x, (last? defs x ≠ none → Refers defs name x) →
        ((x ∉ extra ++ path ∧ Expands matches? c defs (extra ++ path ++ [x]) x) ↔
          (x ∉ path ∧ Expands matches? c defs (path ++ [x]) x)) := by
      intro x refers
      by_cases declared : last? defs x = none
      · exact ⟨fun h => absurd declared h.2.declared, fun h => absurd declared h.2.declared⟩
      · have edge := refers declared
        have offExtra : x ∉ extra := fun member => apart x member (.single edge)
        by_cases onPath : x ∈ path
        · simp [onPath]
        · have smaller := offPath_append_lt declared onPath
          rw [size] at smaller
          have same := ih _ smaller (fun p member lead => apart p member (.head edge lead)) rfl
          rw [List.append_assoc, same]
          simp [offExtra]
    have edgeOf : ∀ d, last? defs name = some d → ∀ x, x ∈ d.includes ∨ x ∈ d.excludes →
        last? defs x ≠ none → Refers defs name x := by
      intro d declared x refers found
      rcases refers with member | member
      · exact Or.inl ⟨d, declared, member, found⟩
      · exact Or.inr ⟨d, declared, member, found⟩
    constructor
    · rintro ⟨d, declared, adds, spares⟩
      refine ⟨d, declared, adds.imp_right ?_, fun y member off holds => ?_⟩
      · rintro ⟨x, member, follows⟩
        exact ⟨x, member, (followed x (edgeOf d declared x (Or.inl member))).mp follows⟩
      · obtain ⟨off', holds'⟩ :=
          (followed y (edgeOf d declared y (Or.inr member))).mpr ⟨off, holds⟩
        exact spares y member off' holds'
    · rintro ⟨d, declared, adds, spares⟩
      refine ⟨d, declared, adds.imp_right ?_, fun y member off holds => ?_⟩
      · rintro ⟨x, member, follows⟩
        exact ⟨x, member, (followed x (edgeOf d declared x (Or.inl member))).mpr follows⟩
      · obtain ⟨off', holds'⟩ :=
          (followed y (edgeOf d declared y (Or.inr member))).mp ⟨off, holds⟩
        exact spares y member off' holds'

/-- Below a path that leads to the list, an excluded list is followed and expands as by itself. -/
theorem expands_excluded_iff (stratified : Stratified defs) {y : String}
    (leads : ∀ p ∈ path, LeadsTo defs p name) (excludes : Excludes defs name y) :
    y ∉ path ∧
      (Expands matches? c defs (path ++ [y]) y ↔ Expands matches? c defs [y] y) := by
  have never := stratified name y excludes
  exact ⟨fun onPath => never (leads y onPath),
    expands_append_iff fun p member lead => never (lead.trans (leads p member))⟩

/-- The meaning of one expansion below a path that leads to the list: no exclude is skipped. -/
theorem expands_iff_of_leads (stratified : Stratified defs)
    (leads : ∀ p ∈ path, LeadsTo defs p name) :
    Expands matches? c defs path name ↔ ∃ d, last? defs name = some d ∧
      (d.Passes matches? c ∨
        ∃ x ∈ d.includes, x ∉ path ∧ Expands matches? c defs (path ++ [x]) x) ∧
      Spares defs (fun y => Expands matches? c defs [y] y) d := by
  rw [expands_iff]
  refine exists_congr fun d => and_congr_right fun declared => and_congr_right fun _ => ?_
  refine forall₂_congr fun y member => ?_
  constructor
  · intro spares found holds
    obtain ⟨off, same⟩ := expands_excluded_iff stratified leads ⟨d, declared, member, found⟩
    exact spares off (same.mpr holds)
  · intro spares _ holds
    have found := holds.declared
    obtain ⟨-, same⟩ := expands_excluded_iff stratified leads ⟨d, declared, member, found⟩
    exact spares found (same.mp holds)

theorem leads_append {x : String} (leads : ∀ p ∈ path, LeadsTo defs p name)
    (edge : Refers defs name x) : ∀ p ∈ path ++ [x], LeadsTo defs p x := by
  intro p member
  rcases List.mem_append.mp member with member | member
  · exact (leads p member).tail edge
  · rw [List.mem_singleton.mp member]

/-! ## Chains and expansions -/

/-- What is found below a path is found by a chain. -/
theorem chain_of_expands (stratified : Stratified defs)
    (leads : ∀ p ∈ path, LeadsTo defs p name) (expands : Expands matches? c defs path name) :
    ∃ rest, Chain matches? c defs (fun y => Expands matches? c defs [y] y) (name :: rest) := by
  induction size : offPath defs path using Nat.strongRecOn generalizing path name with
  | ind n ih =>
    obtain ⟨d, declared, adds, spares⟩ := (expands_iff_of_leads stratified leads).mp expands
    rcases adds with passes | ⟨x, member, off, below⟩
    · exact ⟨[], .last declared spares passes⟩
    · have smaller := offPath_append_lt below.declared off
      rw [size] at smaller
      have edge : Refers defs name x := Or.inl ⟨d, declared, member, below.declared⟩
      obtain ⟨rest, later⟩ := ih _ smaller (leads_append leads edge) below rfl
      exact ⟨x :: rest, .link declared spares member later⟩

theorem Chain.declared {member : String → Prop} {rest : List String}
    (chain : Chain matches? c defs member (name :: rest)) : last? defs name ≠ none := by
  cases chain with
  | last declared => exact declared_ne_none declared
  | link declared => exact declared_ne_none declared

theorem Chain.suffix {member : String → Prop} {before : List String} {rest : List String}
    (chain : Chain matches? c defs member (before ++ name :: rest)) :
    Chain matches? c defs member (name :: rest) := by
  induction before with
  | nil => exact chain
  | cons first before ih =>
    refine ih ?_
    cases before <;> cases chain <;> assumption

/-- A list that starts with an element has a last visit of it. -/
theorem exists_last_visit (x : String) (rest : List String) :
    ∃ before after, x :: rest = before ++ x :: after ∧ x ∉ after := by
  have member : x ∈ (x :: rest).reverse := by simp
  obtain ⟨first, second, split, fresh⟩ := List.eq_append_cons_of_mem member
  refine ⟨second.reverse, first.reverse, ?_, by simpa using fresh⟩
  have turned := congrArg List.reverse split
  simpa using turned

/-- A chain that avoids the path below its first list is found below the path. -/
theorem expands_of_chain (stratified : Stratified defs) {rest : List String}
    (leads : ∀ p ∈ path, LeadsTo defs p name)
    (chain : Chain matches? c defs (fun y => Expands matches? c defs [y] y) (name :: rest))
    (avoids : ∀ x ∈ rest, x ∉ path) : Expands matches? c defs path name := by
  induction size : rest.length using Nat.strongRecOn generalizing path name rest with
  | ind n ih =>
    refine (expands_iff_of_leads stratified leads).mpr ?_
    cases chain with
    | last declared spares passes => exact ⟨_, declared, Or.inl passes, spares⟩
    | @link _ next tail d declared spares member later =>
      refine ⟨d, declared, Or.inr ⟨next, member, avoids next List.mem_cons_self, ?_⟩, spares⟩
      have edge : Refers defs name next := Or.inl ⟨d, declared, member, later.declared⟩
      -- go on from the last visit of the next list
      obtain ⟨before, after, split, fresh⟩ := exists_last_visit next tail
      have short : after.length < n := by
        have lengths := congrArg List.length split
        simp only [List.length_cons, List.length_append] at lengths size
        omega
      have kept : ∀ x ∈ after, x ∈ next :: tail := by
        intro x visited
        rw [split]
        exact List.mem_append_right _ (List.mem_cons_of_mem _ visited)
      rw [split] at later
      refine ih _ short (leads_append leads edge) later.suffix (fun x visited => ?_) rfl
      intro onPath
      rcases List.mem_append.mp onPath with onPath | same
      · exact avoids x (kept x visited) onPath
      · rw [List.mem_singleton.mp same] at visited
        exact fresh visited

/-- The compiled predicates are a membership. -/
theorem isMembership_expands (stratified : Stratified defs) :
    IsMembership matches? c defs fun name => Expands matches? c defs [name] name := by
  intro name
  have leads : ∀ p ∈ [name], LeadsTo defs p name := by
    intro p member
    rw [List.mem_singleton.mp member]
  constructor
  · exact fun expands => chain_of_expands stratified leads expands
  · rintro ⟨rest, chain⟩
    obtain ⟨before, after, split, fresh⟩ := exists_last_visit name rest
    rw [split] at chain
    refine expands_of_chain stratified leads chain.suffix fun x visited onPath => ?_
    rw [List.mem_singleton.mp onPath] at visited
    exact fresh visited

/-! ## There is one membership -/

open Classical in
/-- The definitions that a list leads to. -/
noncomputable def reachable (defs : List Definition) (name : String) : List Definition :=
  defs.filter fun d => decide (LeadsTo defs name d.name)

theorem length_reachable_lt (stratified : Stratified defs) {on y : String}
    (leads : LeadsTo defs name on) (excludes : Excludes defs on y) :
    (reachable defs y).length < (reachable defs name).length := by
  classical
  have down : LeadsTo defs name y := leads.tail (Or.inr excludes)
  have nested : reachable defs y =
      (reachable defs name).filter fun d => decide (LeadsTo defs y d.name) := by
    rw [reachable, reachable, List.filter_filter]
    refine List.filter_congr fun d _ => ?_
    rw [← Bool.decide_and, decide_eq_decide]
    exact ⟨fun lead => ⟨lead, down.trans lead⟩, And.left⟩
  obtain ⟨d, declared, -, -⟩ := id excludes
  obtain ⟨member, named⟩ := last?_eq_some declared
  rw [nested, List.length_filter_lt_length_iff_exists]
  refine ⟨d, List.mem_filter.mpr ⟨member, by rw [named]; simpa using leads⟩, ?_⟩
  rw [named]
  simpa using stratified on y excludes

/-- A chain depends only on the lists that lists on it exclude. -/
theorem Chain.congr {member member' : String → Prop} {names : List String}
    (chain : Chain matches? c defs member names)
    (same : ∀ name ∈ names.head?, ∀ on y, LeadsTo defs name on → Excludes defs on y →
      (member' y → member y)) :
    Chain matches? c defs member' names := by
  have sparesOf : ∀ {name : String} {d : Definition}, last? defs name = some d →
      Spares defs member d → (∀ on y, LeadsTo defs name on → Excludes defs on y →
        (member' y → member y)) → Spares defs member' d := by
    intro name d declared spares same x listed found holds
    exact spares x listed found (same name x .refl ⟨d, declared, listed, found⟩ holds)
  induction chain with
  | last declared spares passes =>
    exact .last declared (sparesOf declared spares (same _ rfl)) passes
  | @link name next rest d declared spares includes later ih =>
    refine .link declared (sparesOf declared spares (same _ rfl)) includes (ih fun n first => ?_)
    obtain rfl := Option.some.inj first
    intro on y leads
    exact same name rfl on y (.head (Or.inl ⟨d, declared, includes, later.declared⟩) leads)

theorem IsMembership.unique (stratified : Stratified defs) {member member' : String → Prop}
    (solves : IsMembership matches? c defs member)
    (solves' : IsMembership matches? c defs member') (name : String) :
    member name ↔ member' name := by
  induction size : (reachable defs name).length using Nat.strongRecOn generalizing name with
  | ind n ih =>
    have below : ∀ on y, LeadsTo defs name on → Excludes defs on y →
        (member y ↔ member' y) := by
      intro on y leads excludes
      have smaller := length_reachable_lt stratified leads excludes
      rw [size] at smaller
      exact ih _ smaller y rfl
    rw [solves name, solves' name]
    refine exists_congr fun rest => ⟨fun chain => ?_, fun chain => ?_⟩
    · refine chain.congr fun n first on y leads excludes => ?_
      obtain rfl := Option.some.inj first
      exact (below on y leads excludes).mpr
    · refine chain.congr fun n first on y leads excludes => ?_
      obtain rfl := Option.some.inj first
      exact (below on y leads excludes).mp

/-- **The compiled predicates are the one membership** of definitions in which no cycle of
references runs through an exclude. -/
theorem isMembership_iff (matches? : (pattern text : String) → Bool) (c : Candidate)
    (stratified : Stratified defs) (member : String → Prop) :
    IsMembership matches? c defs member ↔
      ∀ name, member name ↔ Satisfied matches? c (compile defs name).1 := by
  have compiled : IsMembership matches? c defs fun name => Expands matches? c defs [name] name :=
    isMembership_expands stratified
  constructor
  · intro solves name
    rw [satisfied_compile_iff]
    exact solves.unique stratified compiled name
  · intro same
    have equal : member = fun name => Expands matches? c defs [name] name :=
      funext fun name => propext ((same name).trans satisfied_compile_iff)
    rw [equal]
    exact compiled

/-! ## An example with cycles -/

/-- Ranks that no reference raises and every exclude lowers show that excludes are on no cycle. -/
theorem stratified_of_rank (rank : String → Nat)
    (includes : ∀ d ∈ defs, ∀ x ∈ d.includes, rank x ≤ rank d.name)
    (excludes : ∀ d ∈ defs, ∀ x ∈ d.excludes, rank x < rank d.name) : Stratified defs := by
  have leads : ∀ name target, LeadsTo defs name target → rank target ≤ rank name := by
    intro name target lead
    induction lead with
    | refl => exact Nat.le_refl _
    | tail _ edge ih =>
      rcases edge with ⟨d, declared, listed, -⟩ | ⟨d, declared, listed, -⟩
      · obtain ⟨member, rfl⟩ := last?_eq_some declared
        exact Nat.le_trans (includes d member _ listed) ih
      · obtain ⟨member, rfl⟩ := last?_eq_some declared
        exact Nat.le_trans (Nat.le_of_lt (excludes d member _ listed)) ih
  rintro name target ⟨d, declared, listed, -⟩ lead
  obtain ⟨member, rfl⟩ := last?_eq_some declared
  exact Nat.lt_irrefl _ (Nat.lt_of_lt_of_le (excludes d member _ listed) (leads _ _ lead))

/-- Two lists that include each other, both under a third that excludes one of a diamond of lists,
which in turn excludes a list; one name is declared twice and one nowhere. -/
def loops : List Definition :=
  [((named "all").including "a").including "b" |>.including "ghost" |>.excluding "hidden",
    ((named "a").wanting .netname "OLD-%"),
    ((named "b").wanting .netname "B-%").including "a",
    ((named "a").wanting .netname "A-%").including "b" |>.including "a",
    ((named "hidden").including "c").including "d" |>.excluding "shown",
    ((named "c").including "e"),
    ((named "d").including "e"),
    ((named "e").wanting .descr "%test%"),
    ((named "shown").inRegistrar "TEST")]

/-- Levels of the lists in `loops`. -/
def loopsRank (name : String) : Nat :=
  if name = "all" then 2
  else if name = "hidden" then 1
  else if name = "a" ∨ name = "b" then 2
  else 0

theorem isMembership_iff_loops :
    Stratified loops ∧
      IsMembership Text.matchesPattern ⟨"TEST", none, none, none, none, "A-1", "a test"⟩ loops
        fun name => Satisfied Text.matchesPattern
          ⟨"TEST", none, none, none, none, "A-1", "a test"⟩ (compile loops name).1 := by
  have stratified : Stratified loops :=
    stratified_of_rank loopsRank (by decide) (by decide)
  exact ⟨stratified, (isMembership_iff _ _ stratified _).mpr fun _ => Iff.rfl⟩

end Definition

end NetRegistry
