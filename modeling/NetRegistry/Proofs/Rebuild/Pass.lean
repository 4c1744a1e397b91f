/-
# Proofs.Rebuild.Pass -- a pass over all definitions, whatever calls fail

A pass is a sequence of turns, one for each definition in build order (`turns`).
`Fate` says what came of one turn, in terms of the tables before and after the
whole pass: skipped, rebuilt, or rolled back because one of its calls was struck.

**Main theorem** `all_pass`: every turn of a pass meets its fate, and what no turn
is about stays as it was.  It goes by induction on the turns, each of which keeps
the records that predicates read and touches only its own list.
-/
import NetRegistry.Proofs.Listing.Placement
import NetRegistry.Proofs.Rebuild.List

namespace NetRegistry

set_option autoImplicit false

namespace Session

variable {s : Session}

theorem notedAll_db (lines : List LogLine) : (s.notedAll lines).db = s.db := by
  induction lines generalizing s with
  | nil => rfl
  | cons line rest ih => exact ih

theorem notedAll_calls (lines : List LogLine) : (s.notedAll lines).calls = s.calls := by
  induction lines generalizing s with
  | nil => rfl
  | cons line rest ih => exact ih

end Session

namespace Rebuild

/-! ## Turns -/

/-- The turn of one definition in a pass. -/
structure Turn where
  definition : Definition
  before : Session
  outcome : Outcome
  after : Session

namespace Turn

/-- The name of the list. -/
def name (turn : Turn) : String := turn.definition.name

/-- A call made in the turn was made to fail. -/
def Struck (plan : FaultPlan) (turn : Turn) : Prop :=
  plan.Struck turn.before.calls turn.after.calls

end Turn

variable (plan : FaultPlan) (mode : FetchMode) (defs : List Definition)

/-- The turns of definitions, one after the other. -/
def turnsOf : List Definition → Session → List Turn
  | [], _ => []
  | d :: rest, s =>
      let turn := definition plan mode defs d s
      ⟨d, s, turn.1, turn.2⟩ :: turnsOf rest turn.2

/-- The session at the first turn of a pass. -/
def opened (s : Session) : Session :=
  (s.notedAll ((resolve defs).notes.map (·.line))).noted
    ⟨.info, s!"rebuilding {(resolve defs).order.length} lists"⟩

/-- The turns of a pass. -/
def turns (s : Session) : List Turn :=
  turnsOf plan mode defs (resolve defs).order (opened defs s)

theorem definitions_eq_turnsOf (ds : List Definition) (s : Session) :
    (definitions plan mode defs ds s).1 =
      (turnsOf plan mode defs ds s).map fun turn => (turn.name, turn.outcome) := by
  induction ds generalizing s with
  | nil => rfl
  | cons d rest ih => exact congrArg _ (ih _)

theorem map_definition_turnsOf (ds : List Definition) (s : Session) :
    (turnsOf plan mode defs ds s).map (·.definition) = ds := by
  induction ds generalizing s with
  | nil => rfl
  | cons d rest ih => exact congrArg _ (ih _)

/-- The report names the lists in the order of their turns. -/
theorem lists_all (s : Session) :
    (all plan mode defs s).1.lists =
      (turns plan mode defs s).map fun turn => (turn.name, turn.outcome) :=
  definitions_eq_turnsOf plan mode defs _ _

theorem definitions_turns_perm (s : Session) :
    ((turns plan mode defs s).map (·.definition)).Perm defs := by
  rw [turns, map_definition_turnsOf]
  exact resolve_order_perm defs

/-- A pass reports every definition, once. -/
theorem names_all (s : Session) :
    ((all plan mode defs s).1.lists.map (·.1)).Perm (defs.map (·.name)) := by
  have names := (definitions_turns_perm plan mode defs s).map (·.name)
  rw [List.map_map] at names
  rw [lists_all, List.map_map]
  exact names

variable {plan mode defs} in
/-- What is reported comes of a turn. -/
theorem exists_turn_of_reported {s : Session} {name : String} {outcome : Outcome}
    (reported : (name, outcome) ∈ (all plan mode defs s).1.lists) :
    ∃ turn ∈ turns plan mode defs s, turn.name = name ∧ turn.outcome = outcome := by
  rw [lists_all] at reported
  obtain ⟨turn, member, same⟩ := List.mem_map.mp reported
  exact ⟨turn, member, congrArg Prod.fst same, congrArg Prod.snd same⟩

variable {defs} in
/-- Every definition has a turn. -/
theorem exists_turn_of_declared (s : Session) {name : String}
    (declared : name ∈ defs.map (·.name)) : ∃ turn ∈ turns plan mode defs s, turn.name = name := by
  obtain ⟨d, member, rfl⟩ := List.mem_map.mp declared
  have turned := (definitions_turns_perm plan mode defs s).mem_iff.mpr member
  obtain ⟨turn, there, rfl⟩ := List.mem_map.mp turned
  exact ⟨turn, there, rfl⟩

variable {plan mode defs} in
/-- Whatever fails in them, passes have turns of the same names. -/
theorem exists_turn_named {s : Session} (other : FaultPlan) (otherMode : FetchMode) {turn : Turn}
    (member : turn ∈ turns plan mode defs s) :
    ∃ twin ∈ turns other otherMode defs s, twin.name = turn.name := by
  have declared := (definitions_turns_perm plan mode defs s).mem_iff.mp
    (List.mem_map.mpr ⟨turn, member, rfl⟩)
  exact exists_turn_of_declared other otherMode s (List.mem_map.mpr ⟨_, declared, rfl⟩)

/-! ## The fate of a turn -/

variable {plan mode defs}

/-- What came of a turn, `t` being the tables before the pass and `u` those after it. -/
inductive Fate (plan : FaultPlan) (defs : List Definition) (t u : Tables) (turn : Turn) : Prop
  | skipped (empty : (Definition.compile defs turn.name).1 = none)
      (outcome : turn.outcome = .skipped) (unstruck : ¬ turn.Struck plan)
      (kept : u.stored? turn.name = t.stored? turn.name)
  | committed {p : Predicate} {row : ListRow}
      (compiled : (Definition.compile defs turn.name).1 = some p)
      (outcome : turn.outcome = .committed (statsOf t row.id p)) (unstruck : ¬ turn.Struck plan)
      (stored : u.stored? turn.name = some (t.contents row p))
  | rolledBack {p : Predicate} {e : Error}
      (compiled : (Definition.compile defs turn.name).1 = some p)
      (outcome : turn.outcome = .rolledBack e) (struck : turn.Struck plan)
      (kept : u.stored? turn.name = t.stored? turn.name)

variable {t u v : Tables} {s : Session}

theorem statsOf_congr (same : t.SameRecords u) (list : RowId) (p : Predicate) :
    statsOf u list p = statsOf t list p := by
  rw [statsOf, statsOf, same.familyStats, same.familyStats]

/-- Later turns leave what an earlier one stored. -/
theorem Fate.later {turn : Turn} (fate : Fate plan defs t u turn)
    (kept : v.stored? turn.name = u.stored? turn.name) : Fate plan defs t v turn := by
  cases fate with
  | skipped empty outcome unstruck same => exact .skipped empty outcome unstruck (kept.trans same)
  | committed compiled outcome unstruck stored =>
    exact .committed compiled outcome unstruck (kept.trans stored)
  | rolledBack compiled outcome struck same =>
    exact .rolledBack compiled outcome struck (kept.trans same)

/-- Earlier turns leave what a later one reads. -/
theorem Fate.earlier {turn : Turn} (fate : Fate plan defs u v turn) (same : t.SameRecords u)
    (kept : u.stored? turn.name = t.stored? turn.name) : Fate plan defs t v turn := by
  cases fate with
  | skipped empty outcome unstruck still => exact .skipped empty outcome unstruck (still.trans kept)
  | committed compiled outcome unstruck stored =>
    rw [statsOf_congr same] at outcome
    rw [same.contents] at stored
    exact .committed compiled outcome unstruck stored
  | rolledBack compiled outcome struck still =>
    exact .rolledBack compiled outcome struck (still.trans kept)

/-- One turn: its fate, with the tables right after it, and what it leaves alone. -/
theorem definition_turn (works : ∀ n, plan .rollback n = none) (sound : t.Sound)
    (closed : s.db = ⟨t, none⟩) (d : Definition) :
    let turn := definition plan mode defs d s
    ∃ u, turn.2.db = ⟨u, none⟩ ∧ u.Sound ∧ t.SameRecords u ∧
      (∀ name, name ≠ d.name → u.stored? name = t.stored? name) ∧
      Fate plan defs t u ⟨d, s, turn.1, turn.2⟩ := by
  intro turn
  have turnEq : turn = definition plan mode defs d s := rfl
  clear_value turn
  unfold definition at turnEq
  cases compiled : Definition.compile defs d.name with
  | mk found notes =>
    rw [compiled] at turnEq
    dsimp only at turnEq
    have calls := Session.notedAll_calls (s := s) (notes.map (·.line))
    have db := (Session.notedAll_db (s := s) (notes.map (·.line))).trans closed
    have result : (Definition.compile defs d.name).1 = found := congrArg Prod.fst compiled
    cases found with
    | none =>
      subst turnEq
      refine ⟨t, db, sound, .refl t, fun _ _ => rfl, .skipped result rfl ?_ rfl⟩
      show ¬ plan.Struck s.calls (s.notedAll (notes.map (·.line))).calls
      rw [calls]
      exact FaultPlan.not_struck_self
    | some p =>
      have settles := list_settles mode works sound db d.name p
      rw [calls] at settles
      dsimp only at turnEq
      rw [← turnEq] at settles
      obtain ⟨outcome, after⟩ := turn
      cases settles with
      | committed calm =>
        refine ⟨t.rebuilt d.name p, calm.db, sound.rebuilt d.name p,
          Tables.sameRecords_rebuilt t d.name p, ?_, ?_⟩
        · exact fun name ne => Tables.stored?_rebuilt_ne sound p ne
        · exact .committed result rfl calm.unstruck (Tables.stored?_rebuilt t d.name p)
      | rolledBack since struck db =>
        exact ⟨t, db, sound, .refl t, fun _ _ => rfl, .rolledBack result rfl struck rfl⟩

theorem definitions_pass (mode : FetchMode) (defs : List Definition)
    (works : ∀ n, plan .rollback n = none) {ds : List Definition}
    (distinct : (ds.map (·.name)).Nodup) (sound : t.Sound) (closed : s.db = ⟨t, none⟩) :
    ∃ u, (definitions plan mode defs ds s).2.db = ⟨u, none⟩ ∧ u.Sound ∧ t.SameRecords u ∧
      (∀ name, name ∉ ds.map (·.name) → u.stored? name = t.stored? name) ∧
      ∀ turn ∈ turnsOf plan mode defs ds s, Fate plan defs t u turn := by
  induction ds generalizing s t with
  | nil => exact ⟨t, closed, sound, .refl t, fun _ _ => rfl, fun turn member => by cases member⟩
  | cons d rest ih =>
    rw [List.map_cons, List.nodup_cons] at distinct
    obtain ⟨u, between, soundU, sameU, keptU, fate⟩ := definition_turn works sound closed d
    obtain ⟨v, after, soundV, sameV, keptV, fates⟩ := ih distinct.2 soundU between
    refine ⟨v, after, soundV, sameU.trans sameV, ?_, ?_⟩
    · intro name absent
      rw [List.map_cons, List.mem_cons, not_or] at absent
      exact (keptV name absent.2).trans (keptU name absent.1)
    · intro turn member
      rcases List.mem_cons.mp member with rfl | later
      · exact fate.later (keptV d.name distinct.1)
      · refine (fates turn later).earlier sameU (keptU turn.name ?_)
        -- The turn is that of a later definition, whose name is another one.
        have inside : turn.definition ∈ rest := by
          rw [← map_definition_turnsOf plan mode defs rest (definition plan mode defs d s).2]
          exact List.mem_map.mpr ⟨turn, later, rfl⟩
        exact fun same => distinct.1 (List.mem_map.mpr ⟨turn.definition, inside, same⟩)

/-- **A pass over definitions of different names**: every turn meets its fate, and nothing else
changes. -/
theorem all_pass (mode : FetchMode) (works : ∀ n, plan .rollback n = none)
    (distinct : (defs.map (·.name)).Nodup) (sound : t.Sound) (closed : s.db = ⟨t, none⟩) :
    ∃ u, (all plan mode defs s).2.db = ⟨u, none⟩ ∧ u.Sound ∧ t.SameRecords u ∧
      (∀ name, name ∉ defs.map (·.name) → u.stored? name = t.stored? name) ∧
      ∀ turn ∈ turns plan mode defs s, Fate plan defs t u turn := by
  have names := (resolve_order_perm defs).map (·.name)
  have opens : (opened defs s).db = ⟨t, none⟩ := (Session.notedAll_db _).trans closed
  obtain ⟨u, after, soundU, same, kept, fates⟩ :=
    definitions_pass mode defs works (names.nodup_iff.mpr distinct) sound opens
  exact ⟨u, after, soundU, same, fun name absent => kept name fun member =>
    absent (names.mem_iff.mp member), fates⟩

end Rebuild

end NetRegistry
