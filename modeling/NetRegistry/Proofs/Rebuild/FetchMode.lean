/-
# Proofs.Rebuild.FetchMode -- streamed and buffered fetching

A streamed scan decodes each row when its turn comes and a buffered one all of them
before the first is handed over, so the two part on a row that holds no range, or
an inverted one.  In a reachable database no member row is of that kind, and both
come down to the same loop over the ranges of the members (`Session.handOver`).

* `Session.scansOver`: what a scan does in either mode, for a sink with a state of
  its own.

**Main theorem** `fetch_modes_alike`: scans in the two modes come to the same, and
so do passes over all lists.
-/
import NetRegistry.Proofs.Rebuild.Correct
import NetRegistry.Proofs.Rebuild.Twin

namespace NetRegistry

set_option autoImplicit false

namespace Session

variable {f : Family} {τ : Type} {plan : FaultPlan} {s : Session}

/-- Hand ranges to a sink one after the other, up to the first that it refuses; the answer is their
number. -/
def handOver (sink : Range f → Fallible τ Error Unit) (ranges : List (Range f)) :
    Fallible τ Error Nat := do
  Fallible.each sink ranges
  return ranges.length

/-- A scan of the members of a list by a sink with a state of its own. -/
def scanOwn (plan : FaultPlan) (mode : FetchMode) (f : Family) (list : RowId)
    (sink : Range f → Fallible τ Error Unit) : Fallible (τ × Session) Error Nat :=
  scanMembership plan f list mode fun r => Fallible.onFirst (sink r)

theorem run_handOver_onFirst (sink : Range f → Fallible τ Error Unit) (ranges : List (Range f))
    (w : τ) (s : Session) :
    (handOver (fun r => Fallible.onFirst (sink r)) ranges).run (w, s) =
      (((handOver sink ranges).run w).1, ((handOver sink ranges).run w).2, s) := by
  unfold handOver
  rw [Fallible.run_bind, Fallible.run_bind, Fallible.run_each_onFirst]
  obtain ⟨_ | _, v⟩ := (Fallible.each sink ranges).run w <;> rfl

/-- Scans of the members of a list hand over some ranges, for a sink with a state of its own. -/
structure ScansOver (plan : FaultPlan) (list : RowId) (ranges : List (Range f))
    (sink : Range f → Fallible τ Error Unit) (w : τ) (s : Session) : Prop where
  /-- A scan that is made to fail hands nothing over. -/
  struck : ∀ mode e, plan .scanMembership (s.callCount .scanMembership) = some e →
    (scanOwn plan mode f list sink).run (w, s) =
      (.error e, w, s.made (.scanMembership f list mode))
  /-- Any other hands them over, up to the first that the sink refuses. -/
  handed : ∀ mode, plan .scanMembership (s.callCount .scanMembership) = none →
    (scanOwn plan mode f list sink).run (w, s) =
      (((handOver sink ranges).run w).1, ((handOver sink ranges).run w).2,
        s.made (.scanMembership f list mode))
  /-- The modes give the same answer and leave the sink in the same state. -/
  alike : ((scanOwn plan .stream f list sink).run (w, s)).1 =
      ((scanOwn plan .buffered f list sink).run (w, s)).1 ∧
    ((scanOwn plan .stream f list sink).run (w, s)).2.1 =
      ((scanOwn plan .buffered f list sink).run (w, s)).2.1

theorem run_scanOwn_struck (mode : FetchMode) (list : RowId)
    (sink : Range f → Fallible τ Error Unit) (w : τ) {e : Error}
    (fate : plan .scanMembership (s.callCount .scanMembership) = some e) :
    (scanOwn plan mode f list sink).run (w, s) =
      (.error e, w, s.made (.scanMembership f list mode)) := by
  rw [scanOwn, scanMembership, Fallible.run_bind, Fallible.run_onSecond,
    call_struck (c := .scanMembership f list mode) _ fate]
  rfl

theorem run_scanOwn_unstruck (reached : s.db.Reachable) (mode : FetchMode) (list : RowId)
    (sink : Range f → Fallible τ Error Unit) (w : τ)
    (fate : plan .scanMembership (s.callCount .scanMembership) = none) :
    (scanOwn plan mode f list sink).run (w, s) =
      (((handOver sink (s.db.tables.memberRanges f list)).run w).1,
        ((handOver sink (s.db.tables.memberRanges f list)).run w).2,
        s.made (.scanMembership f list mode)) := by
  have sound := reached.sound.1
  have backed := reached.backed.1
  have rows := backed.memberRows_eq sound f list
  rw [scanOwn, scanMembership, Fallible.run_bind, Fallible.run_onSecond,
    call_unstruck (c := .scanMembership f list mode) _ fate]
  show (scanRows f mode (s.db.tables.memberRows f list) _).run
    (w, s.made (.scanMembership f list mode)) = _
  rw [rows, scanRows_toRow mode (backed.memberRanges_ordered sound)]
  exact run_handOver_onFirst sink _ w _

theorem scansOver (reached : s.db.Reachable) (list : RowId)
    (sink : Range f → Fallible τ Error Unit) (w : τ) :
    ScansOver plan list (s.db.tables.memberRanges f list) sink w s := by
  refine ⟨fun mode e => run_scanOwn_struck mode list sink w,
    fun mode => run_scanOwn_unstruck reached mode list sink w, ?_⟩
  cases fate : plan .scanMembership (s.callCount .scanMembership) with
  | some e =>
    rw [run_scanOwn_struck .stream list sink w fate, run_scanOwn_struck .buffered list sink w fate]
    exact ⟨rfl, rfl⟩
  | none =>
    rw [run_scanOwn_unstruck reached .stream list sink w fate,
      run_scanOwn_unstruck reached .buffered list sink w fate]
    exact ⟨rfl, rfl⟩

end Session

/-! ## Both modes -/

/-- Streaming the members of lists comes to the same as buffering them. -/
structure Database.FetchesAlike (db : Database) : Prop where
  /-- The ranges of the members of a list ascend by first and then by last address. -/
  ascending : ∀ f list, (db.tables.memberRanges f list).Pairwise fun r s => r.le s = true
  /-- There is one range for each member. -/
  complete : ∀ f list, ((db.tables.memberRanges f list).map Range.toRow).Perm
    ((db.tables.membersOf f list).map fun m => (m.first, m.last))
  /-- A scan hands over these ranges, in either mode. -/
  scans : ∀ {τ : Type} plan f list (sink : Range f → Fallible τ Error Unit) (w : τ) s,
    s.db = db → Session.ScansOver plan list (db.tables.memberRanges f list) sink w s
  /-- Passes over all lists report the same and leave the same database, whatever calls fail. -/
  passes : ∀ plan defs s, s.db = db →
    (Rebuild.all plan .stream defs s).1 = (Rebuild.all plan .buffered defs s).1 ∧
      (Rebuild.all plan .stream defs s).2.db = (Rebuild.all plan .buffered defs s).2.db

namespace Tables

theorem twin_self (t : Tables) : t.Twin Eq t := ⟨rfl, rfl⟩

theorem Twin.eq {t u : Tables} (twin : t.Twin Eq u) : t = u := by
  rw [twin.rest, ← twin.coverage]

end Tables

namespace Database

theorem Twin.eq {db db' : Database} (twin : db.Twin Eq db') : db = db' := by
  obtain ⟨t, saved⟩ := db
  obtain ⟨t', saved'⟩ := db'
  obtain rfl : t = t' := twin.tables.eq
  cases twin.saved with
  | none => rfl
  | some back => rw [back.eq]

theorem Reachable.twin_self {db : Database} (reached : db.Reachable) : db.Twin Eq db := by
  refine ⟨reached, Tables.twin_self _, ?_⟩
  cases db.saved with
  | none => exact .none
  | some t => exact .some t.twin_self

end Database

namespace Rebuild

variable {db : Database} {imports : List Importer}

/-- **Streamed and buffered fetching** come to the same in reachable databases. -/
theorem fetch_modes_alike (reached : Service.Reachable db imports) : db.FetchesAlike := by
  have reachable := reached.database
  have sound := reachable.sound.1
  have backed := reachable.backed.1
  refine ⟨fun f list => Tables.memberRanges_ascending _ f list, ?_, ?_, ?_⟩
  · intro f list
    rw [← backed.memberRows_eq sound]
    exact List.mergeSort_perm _ _
  · rintro τ plan f list sink w s rfl
    exact Session.scansOver reachable list sink w
  · rintro plan defs s rfl
    have twin : Session.Twin Eq plan plan s s := ⟨reachable.twin_self, fun _ _ => rfl⟩
    obtain ⟨report, after⟩ := all_twin .stream .buffered defs twin
    exact ⟨report, after.db.eq⟩

/-- The small registry once its lists are built. -/
def stocked : Service := (Service.handle (.rebuild .none .stream watched) imported).2

theorem stocked_reachable : Service.Reachable stocked.db stocked.importer.toList :=
  imported_reachable.next (.rebuild .none .stream watched) rfl

theorem fetch_modes_alike_stocked :
    Service.Reachable stocked.db stocked.importer.toList ∧ stocked.db.FetchesAlike :=
  ⟨stocked_reachable, fetch_modes_alike stocked_reachable⟩

end Rebuild

end NetRegistry
