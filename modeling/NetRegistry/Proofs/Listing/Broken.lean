/-
# Proofs.Listing.Broken -- lists whose includes do not come to an end

Where no list excludes another, three accounts of what is wrong with a list
agree.  It cannot be placed after its includes; expanding it skips an include;
its includes lead to an unknown name or round a cycle (`Definition.Broken`).

The first is the complement of `Definition.Buildable`, the second a question
about one expansion with its path (`Definition.Noted`).  They are joined in a
round:

* `Definition.broken_of_noted`: what is skipped is unknown or on the path, and
  the path leads to where it is skipped.
* `Definition.not_buildable_of_broken`: neither an unknown name nor a cycle is
  in the least set that is closed under includes.
* `Definition.buildable_of_not_noted`: an expansion that skips nothing has shown
  that all includes come to an end.

**Main theorem** `Definition.unresolved_iff_broken`.
-/
import NetRegistry.Proofs.Listing.Membership
import NetRegistry.Proofs.Listing.Reordered

namespace NetRegistry

set_option autoImplicit false

/-- The note tells that an include was skipped, of an unknown list or of one that is already being
expanded. -/
def ExpansionNote.SkipsInclude : ExpansionNote → Prop
  | .unknown _ rel _ => rel = .includes
  | .onPath _ rel _ _ => rel = .includes
  | .selectsNothing _ _ _ => False

namespace Definition

variable {defs : List Definition} {path : List String} {name x : String} {d : Definition}

/-- Includes lead from `name` to `target`, possibly none. -/
abbrev Reaches (defs : List Definition) : String → String → Prop :=
  Relation.ReflTransGen (Includes defs)

/-- The declared list includes an unknown name. -/
def Dangles (defs : List Definition) (name : String) : Prop :=
  ∃ d, last? defs name = some d ∧ ∃ x ∈ d.includes, last? defs x = none

/-- Includes lead from the list to an unknown name or to a list that they lead back to. -/
def Broken (defs : List Definition) (name : String) : Prop :=
  ∃ on, Reaches defs name on ∧ (Dangles defs on ∨ Relation.TransGen (Includes defs) on on)

theorem Broken.head (edge : Includes defs name x) (broken : Broken defs x) :
    Broken defs name := by
  obtain ⟨on, reaches, wrong⟩ := broken
  exact ⟨on, .head edge reaches, wrong⟩

/-! ## Includes that come to an end -/

theorem Buildable.target (buildable : Buildable defs name) (edge : Includes defs name x) :
    Buildable defs x := by
  obtain ⟨d, declared, member, -⟩ := edge
  cases buildable with
  | intro declared' includes =>
    rw [declared] at declared'
    cases declared'
    exact includes x member

theorem Buildable.reached (buildable : Buildable defs name) (reaches : Reaches defs name x) :
    Buildable defs x := by
  induction reaches with
  | refl => exact buildable
  | tail _ edge ih => exact ih.target edge

theorem Buildable.not_dangles (buildable : Buildable defs name) : ¬ Dangles defs name := by
  rintro ⟨d, declared, x, member, unknown⟩
  cases buildable with
  | intro declared' includes =>
    rw [declared] at declared'
    cases declared'
    cases includes x member with
    | intro known =>
      rw [unknown] at known
      cases known

theorem Buildable.acyclic (buildable : Buildable defs name) :
    ¬ Relation.TransGen (Includes defs) name name := by
  induction buildable with
  | @intro name d declared includes ih =>
    intro cycle
    -- The cycle can be entered at its second list as well.
    obtain ⟨x, edge, back⟩ := Relation.TransGen.head'_iff.mp cycle
    have again : Relation.TransGen (Includes defs) x x := .tail' back edge
    obtain ⟨e, declared', member, -⟩ := edge
    rw [declared] at declared'
    cases declared'
    exact ih x member again

theorem not_buildable_of_broken (broken : Broken defs name) : ¬ Buildable defs name := by
  intro buildable
  obtain ⟨on, reaches, dangles | cycle⟩ := broken
  · exact (buildable.reached reaches).not_dangles dangles
  · exact (buildable.reached reaches).acyclic cycle

/-! ## What is noted of an expansion -/

/-- A kind of note that tells of skipped includes and not of those that are followed. -/
structure TellsSkips (told : ExpansionNote → Prop) : Prop where
  unknown : ∀ list target, told (.unknown list .includes target)
  onPath : ∀ list target path, told (.onPath list .includes target path)
  followed : ∀ list target, ¬ told (.selectsNothing list .includes target)

theorem tellsSkips_skipsInclude : TellsSkips ExpansionNote.SkipsInclude :=
  ⟨fun _ _ => rfl, fun _ _ _ => rfl, fun _ _ => id⟩

theorem tellsSkips_warns : TellsSkips (·.line.level = .warn) :=
  ⟨fun _ _ => rfl, fun _ _ _ => rfl, fun _ _ => by simp [ExpansionNote.line]⟩

/-- Something of a kind is noted when the declared list is expanded below the path. -/
def Noted (told : ExpansionNote → Prop) (defs : List Definition) (path : List String)
    (name : String) : Prop :=
  ∃ d, last? defs name = some d ∧ ∃ note ∈ (expand defs path d).2, told note

variable {told : ExpansionNote → Prop}

theorem noted_compile_iff :
    (∃ note ∈ (compile defs name).2, told note) ↔ Noted told defs [name] name :=
  compile_iff (P := fun answer => ∃ note ∈ answer.2, told note) (by simp)

theorem mem_notes_expandRefs_iff {list : String} {rel : Relation} {refs : List String}
    {note : ExpansionNote} : note ∈ (expandRefs defs path list rel refs).2 ↔
      ∃ x ∈ refs, note ∈ (expandRef defs path list rel x).2 := by
  induction refs with
  | nil => simp [expandRefs]
  | cons x rest ih =>
    rw [expandRefs]
    simp [ih]

theorem notes_expand_of_no_excludes (plain : d.excludes = []) :
    (expand defs path d).2 = (expandRefs defs path d.name .includes d.includes).2 := by
  rw [expand, plain, expandRefs]
  simp only
  split
  · rfl
  · simp

theorem noted_expandRef_iff (tells : TellsSkips told) (list : String) :
    (∃ note ∈ (expandRef defs path list .includes x).2, told note) ↔
      last? defs x = none ∨ x ∈ path ∨ Noted told defs (path ++ [x]) x := by
  cases declared : last? defs x with
  | none => simp [expandRef_of_unknown declared, tells.unknown]
  | some t =>
    rw [expandRef_of_declared declared, (last?_eq_some declared).2]
    simp only [Noted, declared, Option.some.injEq, exists_eq_left', reduceCtorEq, false_or]
    by_cases onPath : x ∈ path
    · simp [onPath, tells.onPath]
    · rcases expand defs (path ++ [x]) t with ⟨p | p, notes⟩ <;>
        simp [onPath, or_and_right, exists_or, tells.followed]

/-- Skipping is noted of a list when an include of it is skipped, or when it is noted of an include
below the list. -/
theorem noted_iff (plain : ∀ d ∈ defs, d.excludes = []) (tells : TellsSkips told) :
    Noted told defs path name ↔ ∃ d, last? defs name = some d ∧ ∃ x ∈ d.includes,
      last? defs x = none ∨ x ∈ path ∨ Noted told defs (path ++ [x]) x := by
  refine exists_congr fun d => and_congr_right fun declared => ?_
  rw [notes_expand_of_no_excludes (plain d (last?_eq_some declared).1)]
  simp only [mem_notes_expandRefs_iff, ← noted_expandRef_iff tells d.name]
  constructor
  · rintro ⟨note, ⟨x, member, noted⟩, holds⟩
    exact ⟨x, member, note, noted, holds⟩
  · rintro ⟨x, member, note, noted, holds⟩
    exact ⟨note, ⟨x, member, noted⟩, holds⟩

/-- What is skipped below a path that leads to the list is broken. -/
theorem broken_of_noted (plain : ∀ d ∈ defs, d.excludes = []) (tells : TellsSkips told)
    (leads : ∀ p ∈ path, Reaches defs p name) (noted : Noted told defs path name) :
    Broken defs name := by
  induction size : offPath defs path using Nat.strongRecOn generalizing path name with
  | ind n ih =>
    obtain ⟨d, declared, x, member, skipped⟩ := (noted_iff plain tells).mp noted
    by_cases unknown : last? defs x = none
    · exact ⟨name, .refl, .inl ⟨d, declared, x, member, unknown⟩⟩
    · have edge : Includes defs name x := ⟨d, declared, member, unknown⟩
      by_cases onPath : x ∈ path
      · exact ⟨name, .refl, .inr (.head' edge (leads x onPath))⟩
      · have below := (skipped.resolve_left unknown).resolve_left onPath
        have fewer := offPath_append_lt unknown onPath
        refine Broken.head edge (ih _ (size ▸ fewer) (fun p before => ?_) below rfl)
        rcases List.mem_append.mp before with before | same
        · exact (leads p before).tail edge
        · rw [List.mem_singleton.mp same]

/-- An expansion that skips nothing has come to the end of all includes. -/
theorem buildable_of_not_noted (plain : ∀ d ∈ defs, d.excludes = []) (tells : TellsSkips told)
    (declared : last? defs name = some d) (calm : ¬ Noted told defs path name) :
    Buildable defs name := by
  induction size : offPath defs path using Nat.strongRecOn generalizing path name d with
  | ind n ih =>
    refine .intro declared fun x member => ?_
    rw [noted_iff plain tells] at calm
    have followed : ¬ (last? defs x = none ∨ x ∈ path ∨ Noted told defs (path ++ [x]) x) :=
      fun skipped => calm ⟨d, declared, x, member, skipped⟩
    simp only [not_or] at followed
    obtain ⟨known, off, below⟩ := followed
    obtain ⟨e, found⟩ := Option.ne_none_iff_exists'.mp known
    have fewer := offPath_append_lt known off
    exact ih _ (size ▸ fewer) found below rfl

/-- **Unresolved lists** of definitions that have distinct names and exclude nothing are those whose
compilation skips an include, with a warning, and those whose includes lead to an unknown name or
round a cycle. -/
theorem unresolved_iff_broken (distinct : (defs.map (·.name)).Nodup)
    (plain : ∀ d ∈ defs, d.excludes = []) (declared : name ∈ defs.map (·.name)) :
    (name ∈ (resolve defs).unresolved ↔
      ∃ note ∈ (compile defs name).2, note.SkipsInclude) ∧
    (name ∈ (resolve defs).unresolved ↔
      ∃ line ∈ (compile defs name).2.map ExpansionNote.line, line.level = .warn) ∧
    (name ∈ (resolve defs).unresolved ↔ Broken defs name) := by
  obtain ⟨d, member, rfl⟩ := List.mem_map.mp declared
  have found : last? defs d.name = some d := (last?_eq_some_iff distinct).mpr ⟨member, rfl⟩
  have unresolved : d.name ∈ (resolve defs).unresolved ↔ ¬ Buildable defs d.name := by
    rw [Resolution.mem_unresolved_iff distinct, and_iff_right declared]
  have leads : ∀ p ∈ [d.name], Reaches defs p d.name := by
    intro p same
    rw [List.mem_singleton.mp same]
  have noted_of_not : ∀ {told}, TellsSkips told → ¬ Buildable defs d.name →
      Noted told defs [d.name] d.name := fun tells stuck =>
    Classical.byContradiction fun calm => stuck (buildable_of_not_noted plain tells found calm)
  have skipped : ∀ {told}, TellsSkips told → (d.name ∈ (resolve defs).unresolved ↔
      ∃ note ∈ (compile defs d.name).2, told note) := by
    intro told tells
    rw [unresolved, noted_compile_iff]
    exact ⟨noted_of_not tells, fun noted =>
      not_buildable_of_broken (broken_of_noted plain tells leads noted)⟩
  refine ⟨skipped tellsSkips_skipsInclude, ?_, ?_⟩
  · rw [skipped tellsSkips_warns]
    simp
  · rw [unresolved]
    exact ⟨fun stuck => broken_of_noted plain tellsSkips_warns leads
      (noted_of_not tellsSkips_warns stuck), not_buildable_of_broken⟩

/-- A list that only leads into a cycle, of which one list includes another twice, beside a list
that includes itself and one that is in order. -/
def knotted : List Definition :=
  [(named "top").including "left" |>.including "plain",
    ((named "left").wanting .netname "L-%").including "right" |>.including "right",
    (named "right").including "left",
    ((named "self").inRegistrar "TEST").including "self",
    (named "plain").wanting .descr "%"]

theorem unresolved_iff_broken_knotted :
    (knotted.map (·.name)).Nodup ∧ (∀ d ∈ knotted, d.excludes = []) ∧
      "top" ∈ knotted.map (·.name) ∧ "top" ∈ (resolve knotted).unresolved ∧
      (∃ note ∈ (compile knotted "top").2, note.SkipsInclude) ∧ Broken knotted "top" := by
  have distinct : (knotted.map (·.name)).Nodup := by decide
  have plain : ∀ d ∈ knotted, d.excludes = [] := by decide
  have declared : "top" ∈ knotted.map (·.name) := by decide
  obtain ⟨skips, -, broken⟩ := unresolved_iff_broken distinct plain declared
  have into : Includes knotted "top" "left" := ⟨_, rfl, by decide, by decide⟩
  have there : Includes knotted "left" "right" := ⟨_, rfl, by decide, by decide⟩
  have back : Includes knotted "right" "left" := ⟨_, rfl, by decide, by decide⟩
  have wrong : Broken knotted "top" := ⟨"left", .single into, .inr (.tail (.single there) back)⟩
  have unresolved := broken.mpr wrong
  exact ⟨distinct, plain, declared, unresolved, skips.mp unresolved, wrong⟩

end Definition

end NetRegistry
