/-
# Proofs.Rebuild.Reachable -- rebuilds among the reachable databases

Inside its transaction a rebuild only carries out statements, so it keeps what
these do not take away (`keeps_build`); the coverage needs the two statements that
it is built with (`keeps_coverFamily`).  With the transaction around it, a rebuild
of lists or of the coverage keeps every lasting property, whatever fails in it; one
of these is that the database is reachable.
-/
import NetRegistry.Proofs.Store.Reachable

namespace NetRegistry

set_option autoImplicit false

open Fallible (Keeps)

namespace CoverWriter

variable {f : Family} {σ ε : Type} {I : σ → Prop} {sink : Block f → Fallible σ ε Unit}

theorem keeps_count (g : CoverCounts → CoverCounts) :
    Keeps (fun w : CoverWriter f × σ => I w.2) (count (ε := ε) g) :=
  Keeps.modify fun _ => id

theorem keeps_writeRun (keeps : ∀ b, Keeps I (sink b)) (run : Range f) :
    Keeps (fun w : CoverWriter f × σ => I w.2) (writeRun sink run) :=
  (keeps_count _).bind fun _ => Keeps.each
    (fun b => (Keeps.onSecond (keeps b)).bind fun _ => keeps_count _) _

theorem keeps_writeClosed (keeps : ∀ b, Keeps I (sink b)) :
    ∀ closed, Keeps (fun w : CoverWriter f × σ => I w.2) (writeClosed sink closed)
  | none => Keeps.pure ()
  | some run => keeps_writeRun keeps run

theorem keeps_push (keeps : ∀ b, Keeps I (sink b)) (r : Range f) :
    Keeps (fun w : CoverWriter f × σ => I w.2) (push sink r) := by
  refine Keeps.get.bind fun (w, _) => ?_
  refine Keeps.bind (Keeps.modify ?_) fun _ => keeps_writeClosed keeps (w.coalescer.push r).2
  exact fun _ holds => holds

theorem keeps_finish (keeps : ∀ b, Keeps I (sink b)) :
    Keeps (fun w : CoverWriter f × σ => I w.2) (finish sink) := by
  refine Keeps.get.bind fun (w, _) => ?_
  refine Keeps.bind (Keeps.modify ?_) fun _ => ?_
  · exact fun _ holds => holds
  · exact (keeps_writeClosed keeps w.coalescer.finish.2).bind fun _ =>
      Keeps.get.bind fun (_, _) => Keeps.pure _

end CoverWriter

namespace Rebuild

variable {P : Database → Prop} (plan : FaultPlan) (mode : FetchMode)

/-! ## Inside the transaction -/

theorem keeps_buildFamily (stable : Database.StableUnder Tables.RebuildStep P) (f : Family)
    (list : RowId) (p : Predicate) : Keeps (Session.Has P) (buildFamily plan mode f list p) :=
  have sink := fun b => Session.keeps_insertUnionBlock (f := f) stable plan list b
  (Session.keeps_populateMembership stable plan list p).bind fun _ =>
    (Keeps.withFirst ((Session.keeps_scanMembership plan list mode
      fun r => CoverWriter.keeps_push sink r).bind fun _ => CoverWriter.keeps_finish sink)).bind
    fun _ => Keeps.pure _

theorem keeps_build (stable : Database.StableUnder Tables.RebuildStep P) (name : String)
    (p : Predicate) : Keeps (Session.Has P) (build plan mode name p) := by
  refine (Session.keeps_ensureList stable plan name).bind fun list => ?_
  refine (Session.keeps_clearList stable plan list).bind fun _ => ?_
  refine (Session.keeps_clearList stable plan list).bind fun _ => ?_
  exact (keeps_buildFamily plan mode stable .v4 list p).bind fun _ =>
    (keeps_buildFamily plan mode stable .v6 list p).bind fun _ => Keeps.pure _

/-- The coverage of a family is built with two statements. -/
theorem keeps_coverFamily {f : Family} (clear : Keeps P (Database.exec (Write.clearCoverage f)))
    (insert : ∀ b : Block f, Keeps P (Database.exec (Write.insertCoverageBlock b))) :
    Keeps (Session.Has P) (coverFamily plan f) :=
  have sink := fun b => Session.keeps_call plan (.insertCoverageBlock b) (insert b)
  (Session.keeps_call plan (.clearCoverage f) clear).bind fun _ =>
    Keeps.withFirst ((Session.keeps_scanNetblocks plan
      fun r => CoverWriter.keeps_push sink r).bind fun _ =>
        (CoverWriter.keeps_finish sink).bind fun _ => Keeps.pure _)

/-! ## With the transaction around it -/

section Lasting

variable (lasting : Database.Lasting P)
include lasting

theorem keeps_buildAndCommit (name : String) (p : Predicate) :
    Keeps (Session.Has P) (buildAndCommit plan mode name p) :=
  (keeps_build plan mode lasting.statements name p).bind fun _ =>
    (Session.keeps_commit plan lasting.commit).bind fun _ => Keeps.pure _

theorem has_giveUp (label : String) (e : Error) {s : Session} (holds : s.Has P) :
    (giveUp plan label e s).Has P := by
  have rolled := (Session.keeps_rollback plan lasting.rollback).run (Session.has_noted holds
    ⟨.error, s!"{label}rebuild failed, rolling back: {e.text}"⟩)
  unfold giveUp
  dsimp only
  split <;> rename_i h <;> rw [h] at rolled <;> exact rolled

theorem has_list (name : String) (p : Predicate) {s : Session} (holds : s.Has P) :
    (list plan mode name p s).2.Has P := by
  have begun := (Session.keeps_begin plan lasting.begin).run (Session.has_noted (Session.has_noted
    holds ⟨.info, s!"  building {name}"⟩) ⟨.debug, s!"  {name}: {p.text}"⟩)
  unfold list
  dsimp only
  split <;> rename_i h <;> rw [h] at begun
  · exact begun
  · rename_i u
    have built := (keeps_buildAndCommit plan mode lasting name p).run begun
    split <;> rename_i h <;> rw [h] at built
    · exact built
    · exact has_giveUp plan lasting _ _ built

theorem has_definition (defs : List Definition) (d : Definition) {s : Session} (holds : s.Has P) :
    (definition plan mode defs d s).2.Has P := by
  unfold definition
  have noted := Session.has_notedAll holds ((Definition.compile defs d.name).2.map (·.line))
  split
  dsimp only
  split
  · exact has_list plan mode lasting _ _ (Session.has_notedAll holds _)
  · exact Session.has_notedAll holds _

theorem has_definitions (defs ds : List Definition) {s : Session} (holds : s.Has P) :
    (definitions plan mode defs ds s).2.Has P := by
  induction ds generalizing s with
  | nil => exact holds
  | cons d rest ih => exact ih (has_definition plan mode lasting defs d holds)

theorem has_all (defs : List Definition) {s : Session} (holds : s.Has P) :
    (all plan mode defs s).2.Has P :=
  has_definitions plan mode lasting defs _ (Session.has_notedAll holds _)

theorem keeps_coverage : Keeps (Session.Has P) (coverage plan) := by
  have family : ∀ f, Keeps (Session.Has P) (coverFamily plan f) := fun f =>
    keeps_coverFamily plan (Database.keeps_step lasting.statements fun _ _ _ => .clearCoverage)
      fun _ => Database.keeps_step lasting.statements fun _ _ _ => .insertCoverageBlock
  have both : Keeps (Session.Has P) (coverAndCommit plan) :=
    (family .v4).bind fun _ => (family .v6).bind fun _ =>
      (Session.keeps_commit plan lasting.commit).bind fun _ => Keeps.pure _
  refine Keeps.of_run fun s holds => ?_
  have begun := (Session.keeps_begin plan lasting.begin).run
    (Session.has_noted holds ⟨.info, "rebuilding coverage union"⟩)
  show Session.Has P (coverage plan s).2
  unfold coverage
  dsimp only
  split <;> rename_i h <;> rw [h] at begun
  · exact begun
  · have covered := both.run begun
    split <;> rename_i h <;> rw [h] at covered
    · exact covered
    · exact has_giveUp plan lasting _ _ covered

theorem has_refresh (defs : List Definition) {s : Session} (holds : s.Has P) :
    (refresh plan mode defs s).2.Has P :=
  has_all plan mode lasting defs ((keeps_coverage plan lasting).run holds)

end Lasting

end Rebuild

end NetRegistry
