/-
# Proofs.Rebuild.Refresh -- a refresh, part by part

A refresh replaces the coverage and then rebuilds the lists on the same session.
The two parts share the transaction calls and nothing else, so when calls fail the
coverage part decides what becomes of the coverage and the list part what becomes
of the lists.  The pass over the lists is the one that would have been made alone,
under the plan that is left when the coverage part is over (`FaultPlan.after`).

**Main theorem** `refresh_part_by_part`.
-/
import NetRegistry.Proofs.Rebuild.Coverage
import NetRegistry.Proofs.Rebuild.Twin

namespace NetRegistry

set_option autoImplicit false

/-- What is left of a plan after some calls: the next call of a method is its first one again. -/
def FaultPlan.after (plan : FaultPlan) (calls : List Call) : FaultPlan := fun m n =>
  plan m (calls.countP (·.method == m) + n)

namespace Rebuild

variable {plan : FaultPlan} {t : Tables} {s : Session}

/-- The pass over the lists alone, its calls failing as they do in a refresh. -/
def listsAlone (plan : FaultPlan) (mode : FetchMode) (defs : List Definition) (s : Session) :
    Report × Session :=
  all (plan.after ((coverage plan).run s).2.calls) mode defs (.on s.db)

namespace CoverageSettled

variable {before : List Call} {covered : Except Error CoverageStats × Session}

theorem isSome_iff (settled : CoverageSettled plan t before covered) :
    covered.1.toOption.isSome = true ↔ ¬ plan.Struck before covered.2.calls := by
  cases settled with
  | replaced calm => exact iff_of_true rfl calm.unstruck
  | rolledBack _ struck => exact iff_of_false Bool.false_ne_true (not_not_intro struck)

/-- However the coverage was settled, nothing else has changed and the transaction is over. -/
theorem db (settled : CoverageSettled plan t before covered) :
    covered.2.db = ⟨{ t with coverage := covered.2.db.tables.coverage }, none⟩ := by
  cases settled with
  | replaced calm =>
    rw [calm.db]
    rfl
  | rolledBack _ _ db => rw [db]

theorem coverage_of_isSome (settled : CoverageSettled plan t before covered)
    (reported : covered.1.toOption.isSome = true) :
    covered.2.db.tables.coverage = t.recovered.coverage := by
  cases settled with
  | replaced calm => rw [calm.db]
  | rolledBack => cases reported

theorem coverage_of_none (settled : CoverageSettled plan t before covered)
    (missing : covered.1.toOption = none) : covered.2.db.tables.coverage = t.coverage := by
  cases settled with
  | replaced => cases missing
  | rolledBack _ _ db => rw [db]

end CoverageSettled

/-- After the coverage the session is the twin of one that has the lists ahead of it only. -/
theorem covered_twin (works : ∀ n, plan .rollback n = none) (reached : s.Reached)
    (closed : s.db.saved = none) :
    Session.Twin
      (fun held before => held = ((coverage plan).run s).2.db.tables.coverage ∧
        before = s.db.tables.coverage)
      plan (plan.after ((coverage plan).run s).2.calls) ((coverage plan).run s).2 (.on s.db) := by
  have start : s.db = ⟨s.db.tables, none⟩ := by rw [← closed]
  have settled := coverage_settles works reached.sound.1 start
  have kept := (keeps_coverage plan Database.lasting_reachable).run reached
  have saved : ((coverage plan).run s).2.db.saved = none := congrArg (·.saved) settled.db
  refine ⟨⟨kept, ⟨?_, rfl, rfl⟩, ?_⟩, fun m n => ?_⟩
  · rw [settled.db]
    rfl
  · rw [saved]
    show Option.Rel _ none s.db.saved
    rw [closed]
    exact .none
  · -- The other session has made no calls, and its plan starts counting where this one stands.
    show _ = plan m (_ + (0 + n))
    rw [Nat.zero_add]
    rfl

/-- What a refresh reports and leaves when calls fail. -/
structure PartByPart (plan : FaultPlan) (mode : FetchMode) (defs : List Definition)
    (s : Session) : Prop where
  /-- The coverage is reported when none of its calls failed. -/
  reported : (refresh plan mode defs s).1.coverage.isSome = true ↔
    ¬ plan.Struck s.calls ((coverage plan).run s).2.calls
  /-- It then covers all netblocks. -/
  replaced : (refresh plan mode defs s).1.coverage.isSome = true → ∀ f,
    (refresh plan mode defs s).2.db.tables.coverage.get f =
      (s.db.tables.wholeCover f).map Block.toRow
  /-- Else it is what it was, in both families. -/
  restored : (refresh plan mode defs s).1.coverage = none → ∀ f,
    (refresh plan mode defs s).2.db.tables.coverage.get f = s.db.tables.coverage.get f
  /-- No transaction is open when the first list begins. -/
  released : ((coverage plan).run s).2.db.saved = none
  /-- The lists are reported as they would be without the coverage. -/
  lists : (refresh plan mode defs s).1.lists = (listsAlone plan mode defs s).1
  /-- All other tables are as they would be, too. -/
  tables : (refresh plan mode defs s).2.db.tables =
    { (listsAlone plan mode defs s).2.db.tables with
      coverage := (refresh plan mode defs s).2.db.tables.coverage }

variable {db : Database} {imports : List Importer}

/-- **A refresh** bears failing calls part by part. -/
theorem refresh_part_by_part (mode : FetchMode) (defs : List Definition)
    (works : ∀ n, plan .rollback n = none) (reached : Service.Reachable db imports)
    (closed : db.saved = none) (on : s.db = db) : PartByPart plan mode defs s := by
  subst on
  have start : s.db = ⟨s.db.tables, none⟩ := by rw [← closed]
  have settled := coverage_settles works reached.database.sound.1 start
  obtain ⟨lists, twin⟩ := all_twin mode mode defs (covered_twin works reached.database closed)
  have held : (refresh plan mode defs s).2.db.tables.coverage =
      ((coverage plan).run s).2.db.tables.coverage := twin.db.tables.coverage.1
  have part : (refresh plan mode defs s).1.coverage = ((coverage plan).run s).1.toOption := rfl
  have released : ((coverage plan).run s).2.db.saved = none := congrArg (·.saved) settled.db
  refine ⟨?_, ?_, ?_, released, lists, ?_⟩
  · rw [part]
    exact settled.isSome_iff
  · intro reported f
    rw [held, settled.coverage_of_isSome (part ▸ reported)]
    exact PerFamily.get_ofFn _ f
  · intro missing f
    rw [held, settled.coverage_of_none (part ▸ missing)]
  · rw [listsAlone, twin.db.tables.rest]
    rfl

/-! ## A refresh that fails twice -/

/-- The small registry with its coverage. -/
def surveyed : Service := (Service.handle (.rebuildCoverage .none) imported).2

theorem surveyed_reachable : Service.Reachable surveyed.db surveyed.importer.toList :=
  imported_reachable.next (.rebuildCoverage .none) rfl

theorem surveyed_closed : surveyed.db.saved = none := by
  have done := (coverage_commits (s := .on imported.db) imported_reachable.database.sound.1 rfl).2
  exact congrArg (·.saved) done

/-- The coverage fails at the first block of the second family, and a list at its second scan. -/
def lateFailures : FaultPlan := .ofList [(.insertCoverageBlock, 1), (.scanMembership, 1)]

theorem refresh_part_by_part_surveyed :
    ((∀ n, lateFailures .rollback n = none) ∧
      Service.Reachable surveyed.db surveyed.importer.toList ∧ surveyed.db.saved = none) ∧
    PartByPart lateFailures .buffered watched (.on surveyed.db) := by
  have works : ∀ n, lateFailures .rollback n = none := fun n => by
    simp [lateFailures, FaultPlan.ofList]
  exact ⟨⟨works, surveyed_reachable, surveyed_closed⟩,
    refresh_part_by_part .buffered watched works surveyed_reachable surveyed_closed rfl⟩

end Rebuild

end NetRegistry
