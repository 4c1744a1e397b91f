/-
# Proofs.Rebuild.Passed -- what a rebuild leaves, told by its report

`Passed outcomes t u` says how rebuilds that reported `outcomes` took the tables
`t` to `u`: a list reported as committed holds what some predicate selects, any
other list is as it was, and nothing that imports write has changed.  A name may
be reported more than once, as definitions may repeat names.

Passes follow one another (`Passed.trans`), so a pass over definitions, one list
and the coverage are all cases of it: `definitions_passed`, `list_passed`,
`coverage_passed`.  Only rollbacks have to work.
-/
import NetRegistry.Proofs.Rebuild.Pass
import NetRegistry.Proofs.Rebuild.Reachable

namespace NetRegistry

set_option autoImplicit false

open Fallible (Ends Keeps)

namespace Tables

/-- What imports write is the same. -/
structure SameImports (t u : Tables) : Prop where
  registrars : u.registrars = t.registrars
  orgs : u.orgs = t.orgs
  netblocks : u.netblocks = t.netblocks

namespace SameImports

variable {t u v : Tables}

theorem refl (t : Tables) : t.SameImports t := ⟨rfl, rfl, rfl⟩

theorem trans (first : t.SameImports u) (second : u.SameImports v) : t.SameImports v :=
  ⟨second.registrars.trans first.registrars, second.orgs.trans first.orgs,
    second.netblocks.trans first.netblocks⟩

/-- Predicates do not see the coverage. -/
theorem contents (same : t.SameImports u) (row : ListRow) (p : Predicate) :
    u.contents row p = t.contents row p := by
  have records : { t with coverage := u.coverage }.SameRecords u :=
    ⟨same.registrars, same.orgs, same.netblocks, rfl⟩
  exact records.contents row p

end SameImports

end Tables

namespace Rebuild

/-- Rebuilds that reported these outcomes took one state of the tables to the other. -/
structure Passed (outcomes : List (String × Outcome)) (t u : Tables) : Prop where
  sound : u.Sound
  imports : t.SameImports u
  committed : ∀ name stats, (name, .committed stats) ∈ outcomes →
    ∃ p row, u.stored? name = some (u.contents row p)
  kept : ∀ name, (∀ stats, (name, .committed stats) ∉ outcomes) → u.stored? name = t.stored? name

namespace Passed

variable {t u v : Tables} {past later : List (String × Outcome)}

theorem nil (sound : t.Sound) : Passed [] t t := by
  refine ⟨sound, .refl t, ?_, fun _ _ => rfl⟩
  intro name stats member
  cases member

theorem trans (first : Passed past t u) (second : Passed later u v) :
    Passed (past ++ later) t v := by
  refine ⟨second.sound, first.imports.trans second.imports, ?_, ?_⟩
  · intro name stats member
    by_cases again : ∃ stats, (name, .committed stats) ∈ later
    · obtain ⟨stats, member⟩ := again
      exact second.committed name stats member
    · -- What the earlier rebuilds stored is still there.
      have kept := second.kept name fun stats member => again ⟨stats, member⟩
      have early : (name, .committed stats) ∈ past :=
        (List.mem_append.mp member).resolve_right fun late => again ⟨stats, late⟩
      obtain ⟨p, row, stored⟩ := first.committed name stats early
      exact ⟨p, row, by rw [kept, stored, second.imports.contents]⟩
  · intro name absent
    have late := second.kept name fun stats member =>
      absent stats (List.mem_append_right past member)
    have early := first.kept name fun stats member =>
      absent stats (List.mem_append_left later member)
    exact late.trans early

end Passed

variable {plan : FaultPlan} {mode : FetchMode} {defs : List Definition} {t u : Tables}
  {s : Session}

/-! ## Lists -/

theorem Fate.passed {turn : Turn} (fate : Fate plan defs t u turn) (sound : u.Sound)
    (imports : t.SameImports u)
    (others : ∀ name, name ≠ turn.name → u.stored? name = t.stored? name) :
    Passed [(turn.name, turn.outcome)] t u := by
  refine ⟨sound, imports, ?_, ?_⟩
  · intro name stats member
    obtain ⟨rfl, outcome'⟩ := Prod.mk.inj (List.mem_singleton.mp member)
    cases fate with
    | skipped _ outcome => rw [outcome] at outcome'; cases outcome'
    | rolledBack _ outcome => rw [outcome] at outcome'; cases outcome'
    | @committed p row _ _ _ stored => exact ⟨p, row, by rw [stored, imports.contents]⟩
  · intro name absent
    by_cases same : name = turn.name
    · subst same
      cases fate with
      | skipped _ _ _ kept => exact kept
      | rolledBack _ _ _ kept => exact kept
      | committed _ outcome =>
        rw [outcome] at absent
        exact absurd (List.mem_singleton.mpr rfl) (absent _)
    · exact others name same

theorem definitions_passed (mode : FetchMode) (defs : List Definition)
    (works : ∀ n, plan .rollback n = none) (ds : List Definition) (sound : t.Sound)
    (closed : s.db = ⟨t, none⟩) :
    ∃ u, (definitions plan mode defs ds s).2.db = ⟨u, none⟩ ∧
      Passed (definitions plan mode defs ds s).1 t u := by
  induction ds generalizing s t with
  | nil => exact ⟨t, closed, .nil sound⟩
  | cons d rest ih =>
    obtain ⟨u, between, soundU, same, others, fate⟩ :=
      @definition_turn plan mode defs t s works sound closed d
    have head := fate.passed soundU ⟨same.registrars, same.orgs, same.netblocks⟩ others
    obtain ⟨v, after, tail⟩ := ih soundU between
    exact ⟨v, after, head.trans tail⟩

/-- **A pass**, whether or not definitions repeat names. -/
theorem all_passed (mode : FetchMode) (works : ∀ n, plan .rollback n = none) (sound : t.Sound)
    (closed : s.db = ⟨t, none⟩) :
    ∃ u, (all plan mode defs s).2.db = ⟨u, none⟩ ∧ Passed (all plan mode defs s).1.lists t u :=
  definitions_passed mode defs works _ sound ((Session.notedAll_db _).trans closed)

theorem list_passed (mode : FetchMode) (works : ∀ n, plan .rollback n = none) (sound : t.Sound)
    (closed : s.db = ⟨t, none⟩) (name : String) (p : Predicate) :
    ∃ u, (list plan mode name p s).2.db = ⟨u, none⟩ ∧
      Passed [(name, (list plan mode name p s).1)] t u := by
  have settles := list_settles mode works sound closed name p
  generalize list plan mode name p s = result at settles
  cases settles with
  | rolledBack _ _ db =>
    refine ⟨t, db, sound, .refl t, ?_, fun _ _ => rfl⟩
    intro name stats member
    cases List.mem_singleton.mp member
  | committed calm =>
    have same := Tables.sameRecords_rebuilt t name p
    refine ⟨_, calm.db, sound.rebuilt name p, ⟨rfl, rfl, rfl⟩, ?_, ?_⟩
    · intro other stats member
      obtain ⟨rfl, -⟩ := Prod.mk.inj (List.mem_singleton.mp member)
      exact ⟨p, (t.ensured other).1, by rw [Tables.stored?_rebuilt, same.contents]⟩
    · intro other absent
      refine Tables.stored?_rebuilt_ne sound p ?_
      rintro rfl
      exact absent _ (List.mem_singleton.mpr rfl)

/-! ## Coverage -/

/-- The tables are these, but for the coverage, and others are there to go back to. -/
def Covering (t : Tables) (db : Database) : Prop :=
  db.saved = some t ∧ ∃ c, db.tables = { t with coverage := c }

theorem keeps_covering {f : Family} : Keeps (Session.Has (Covering t)) (coverFamily plan f) := by
  refine keeps_coverFamily plan (Database.keeps_exec ?_) fun b => Database.keeps_exec ?_
  · rintro _ _ _ saved ran ⟨going, c, rfl⟩
    obtain ⟨-, rfl⟩ := Prod.mk.inj (Except.ok.inj ran)
    exact ⟨going, _, rfl⟩
  · rintro _ _ _ saved ran ⟨going, c, rfl⟩
    obtain ⟨_, rfl⟩ := Write.insertCoverageBlock_frame ran
    exact ⟨going, _, rfl⟩

theorem coverAndCommit_covers {v : Session} (opened : v.db = ⟨t, some t⟩) :
    Ends (coverAndCommit plan) v (fun _ w => ∃ c, w.db = ⟨{ t with coverage := c }, none⟩)
      (fun w => w.db.saved = some t) := by
  have start : v.Has (Covering t) := by
    rw [Session.Has, opened]
    exact ⟨rfl, t.coverage, rfl⟩
  refine Ends.bind ((keeps_covering v start).imp ?_ fun _ covering => covering.1)
  intro _ v covering
  refine Ends.bind ((keeps_covering v covering).imp ?_ fun _ covering => covering.1)
  intro _ v ⟨going, c, tables⟩
  have db : v.db = ⟨{ t with coverage := c }, some t⟩ := by rw [← tables, ← going]
  cases fate : plan .commit (v.callCount .commit) with
  | some e => exact Ends.bind (Ends.of_error (Session.call_struck Database.commit fate) going)
  | none =>
    have run : (Session.commit plan).run v = _ := Session.call_unstruck Database.commit fate
    rw [db] at run
    exact Ends.bind (Ends.of_ok run (Ends.pure ⟨c, rfl⟩))

/-- Whatever fails in it, a rebuild of the coverage ends its transaction and changes nothing
else. -/
theorem coverage_covers (works : ∀ n, plan .rollback n = none) (closed : s.db = ⟨t, none⟩) :
    ∃ c, ((coverage plan).run s).2.db = ⟨{ t with coverage := c }, none⟩ := by
  have calm : Session.Calm plan s.calls ⟨t, none⟩ (s.noted ⟨.info, "rebuilding coverage union"⟩) :=
    ⟨List.suffix_refl _, FaultPlan.not_struck_self, closed⟩
  have began : Database.begin.run ⟨t, none⟩ = (.ok (), ⟨t, some t⟩) := rfl
  have begins : Ends (Session.begin plan) _ _ _ := Session.call_ends_or_unchanged calm began
  show ∃ c, (coverage plan s).2.db = _
  unfold coverage
  unfold Ends at begins
  dsimp only
  split <;> rename_i ran <;> rw [ran] at begins
  · exact ⟨t.coverage, begins.1⟩
  · have covers : Ends (coverAndCommit plan) _ _ _ := coverAndCommit_covers begins.2.db
    unfold Ends at covers
    split <;> rename_i ran <;> rw [ran] at covers
    · exact covers
    · exact ⟨t.coverage, (giveUp_rolls_back works covers "coverage " _).1⟩

theorem coverage_passed (works : ∀ n, plan .rollback n = none) (sound : t.Sound)
    (closed : s.db = ⟨t, none⟩) :
    ∃ u, ((coverage plan).run s).2.db = ⟨u, none⟩ ∧ Passed [] t u := by
  obtain ⟨c, after⟩ := coverage_covers works closed
  refine ⟨_, after, sound.congr rfl rfl, ⟨rfl, rfl, rfl⟩, ?_, fun _ _ => rfl⟩
  intro name stats member
  cases member

/-- **A refresh** is a rebuild of the coverage and a pass. -/
theorem refresh_passed (mode : FetchMode) (works : ∀ n, plan .rollback n = none) (sound : t.Sound)
    (closed : s.db = ⟨t, none⟩) :
    ∃ u, (refresh plan mode defs s).2.db = ⟨u, none⟩ ∧
      Passed (refresh plan mode defs s).1.lists.lists t u := by
  obtain ⟨u, between, covered⟩ := coverage_passed works sound closed
  obtain ⟨v, after, passed⟩ := all_passed mode works covered.sound between
  exact ⟨v, after, covered.trans passed⟩

end Rebuild

end NetRegistry
