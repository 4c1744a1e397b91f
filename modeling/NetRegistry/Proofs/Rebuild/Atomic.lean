/-
# Proofs.Rebuild.Atomic -- each list of a pass on its own

When calls fail, each list of a pass is either what a pass without failures makes
of it or what it was before, and which of the two is decided by whether one of
its own calls was struck.  Only rollbacks have to work.

**Main theorem** `rebuild_all_atomic`.
-/
import NetRegistry.Proofs.Rebuild.Correct

namespace NetRegistry

set_option autoImplicit false

namespace Tables

/-- The same members and the same unions, under lists that may have different ids. -/
structure Contents.Alike (a b : Contents) : Prop where
  members : ∀ f, (a.members.get f).map (fun m => (m.netblock, m.first, m.last, m.prefixLen)) =
    (b.members.get f).map fun m => (m.netblock, m.first, m.last, m.prefixLen)
  unions : ∀ f, (a.unions.get f).map (·.block) = (b.unions.get f).map (·.block)

theorem contents_alike (t : Tables) (p : Predicate) (row other : ListRow) :
    (t.contents row p).Alike (t.contents other p) := by
  constructor <;> intro f <;> simp only [contents, PerFamily.get_ofFn, List.map_map] <;> rfl

end Tables

namespace Rebuild

variable {db : Database} {imports : List Importer} {defs : List Definition} {plan : FaultPlan}
  {s : Session}

/-- A pass under a fault plan treats its lists one by one. -/
structure Atomic (plan : FaultPlan) (mode : FetchMode) (defs : List Definition) (s : Session) :
    Prop where
  /-- No transaction is left open. -/
  closed : (all plan mode defs s).2.db.saved = none
  /-- Registrars, organizations, netblocks and coverage are as before. -/
  records : s.db.tables.SameRecords (all plan mode defs s).2.db.tables
  /-- So are the lists that no definition names. -/
  others : ∀ name, name ∉ defs.map (·.name) →
    (all plan mode defs s).2.db.tables.stored? name = s.db.tables.stored? name
  /-- Every definition has one turn. -/
  once : ((turns plan mode defs s).map (·.definition)).Perm defs
  report : (all plan mode defs s).1.lists =
    (turns plan mode defs s).map fun turn => (turn.name, turn.outcome)
  /-- A list one of whose calls failed is reported so and is as before. -/
  struck : ∀ turn ∈ turns plan mode defs s, turn.Struck plan →
    (∃ e, turn.outcome = .rolledBack e) ∧
      (all plan mode defs s).2.db.tables.stored? turn.name = s.db.tables.stored? turn.name
  /-- Any other list that selects anything is what a pass without failing calls makes of it. -/
  unstruck : ∀ turn ∈ turns plan mode defs s, ¬ turn.Struck plan →
    (Definition.compile defs turn.name).1.isSome = true →
    (∃ stats, turn.outcome = .committed stats) ∧
      ∃ a b, (all plan mode defs s).2.db.tables.stored? turn.name = some a ∧
        (all .none mode defs s).2.db.tables.stored? turn.name = some b ∧ a.Alike b
  /-- A list that selects nothing is left alone. -/
  skipped : ∀ turn ∈ turns plan mode defs s,
    (Definition.compile defs turn.name).1 = none →
    turn.outcome = .skipped ∧
      (all plan mode defs s).2.db.tables.stored? turn.name = s.db.tables.stored? turn.name

/-- **A pass with failing calls** treats its lists one by one. -/
theorem rebuild_all_atomic (mode : FetchMode) (works : ∀ n, plan .rollback n = none)
    (reached : Service.Reachable db imports) (closed : db.saved = none)
    (distinct : (defs.map (·.name)).Nodup) (on : s.db = db) : Atomic plan mode defs s := by
  have start : s.db = ⟨db.tables, none⟩ := by rw [on, ← closed]
  have sound := reached.database.sound.1
  obtain ⟨u, after, -, same, kept, fates⟩ := all_pass mode works distinct sound start
  obtain ⟨v, calm, -, -, -, calmFates⟩ := all_pass mode FaultPlan.none_works distinct sound start
  have tables : s.db.tables = db.tables := congrArg _ on
  refine ⟨by rw [after], ?_, ?_, definitions_turns_perm plan mode defs s, lists_all plan mode defs s,
    ?_, ?_, ?_⟩
  · rw [after, tables]
    exact same
  · intro name absent
    rw [after, tables]
    exact kept name absent
  · intro turn inside struck
    rw [after, tables]
    cases fates turn inside with
    | skipped _ _ unstruck => exact absurd struck unstruck
    | committed _ _ unstruck => exact absurd struck unstruck
    | rolledBack _ outcome _ kept => exact ⟨⟨_, outcome⟩, kept⟩
  · intro turn inside unstruck compiles
    rw [after, calm]
    cases fates turn inside with
    | skipped empty => rw [empty] at compiles; cases compiles
    | rolledBack _ _ struck => exact absurd struck unstruck
    | @committed p row compiled outcome _ stored =>
      refine ⟨⟨_, outcome⟩, db.tables.contents row p, ?_⟩
      -- The calm pass has a turn of the same name, which cannot have been struck.
      obtain ⟨other, there, name⟩ := exists_turn_named .none mode inside
      cases calmFates other there with
      | skipped empty => rw [name, compiled] at empty; cases empty
      | rolledBack _ _ struck => exact absurd struck (none_unstruck other)
      | @committed q row' compiled' _ _ stored' =>
        rw [name, compiled] at compiled'
        cases compiled'
        rw [name] at stored'
        exact ⟨_, stored, stored', Tables.contents_alike _ p row row'⟩
  · intro turn inside empty
    rw [after, tables]
    cases fates turn inside with
    | skipped _ outcome _ kept => exact ⟨outcome, kept⟩
    | committed compiled => rw [empty] at compiled; cases compiled
    | rolledBack compiled => rw [empty] at compiled; cases compiled

/-- The scan of the second family of the first list fails. -/
def secondScan : FaultPlan := .ofList [(.scanMembership, 1)]

theorem rebuild_all_atomic_imported :
    ((∀ n, secondScan .rollback n = none) ∧
      Service.Reachable imported.db imported.importer.toList ∧ imported.db.saved = none ∧
      (watched.map (·.name)).Nodup) ∧
    Atomic secondScan .buffered watched (.on imported.db) := by
  have works : ∀ n, secondScan .rollback n = none := fun n => by
    simp [secondScan, FaultPlan.ofList]
  exact ⟨⟨works, imported_reachable, rfl, by decide⟩,
    rebuild_all_atomic .buffered works imported_reachable rfl (by decide) rfl⟩

end Rebuild

end NetRegistry
