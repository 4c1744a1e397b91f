/-
# Proofs.Rebuild.Coverage -- the coverage agrees with lookups

A rebuild of the coverage scans the netblocks of each family and stores the fewest
blocks that cover them; a lookup filters the same netblocks by one address.  The
two paths share no code, and agree on every address.

* `coverFamily_ends`: one family inside the transaction, whatever calls fail.
* `coverage_settles`: the coverage of both families is replaced, or a call was
  struck and everything is as it was.

**Main theorem** `coverage_agrees`: without failing calls the rebuild succeeds
whatever the coverage held before, and changes nothing else.
-/
import NetRegistry.Proofs.Rebuild.List
import NetRegistry.Proofs.Rebuild.Correct
import NetRegistry.Proofs.Service.Lookup
import NetRegistry.Rebuild.Coverage

namespace NetRegistry

set_option autoImplicit false

open Fallible (Ends)

namespace Tables

variable {t u : Tables} {f : Family}

/-! ## The tables with another coverage -/

/-- The tables with some blocks as the coverage of one family. -/
def covering (t : Tables) (blocks : List (Block f)) : Tables :=
  { t with coverage := t.coverage.set f (blocks.map Block.toRow) }

/-- The fewest blocks that cover all netblocks of a family. -/
def wholeCover (t : Tables) (f : Family) : List (Block f) :=
  minimalCover (scanned f (t.netblocks.get f))

/-- What a rebuild of the coverage reports for one family. -/
def wholeCounts (t : Tables) (f : Family) : FamilyCoverage :=
  ⟨(t.netblocks.get f).length,
    ⟨(coalesce (scanned f (t.netblocks.get f))).length, (t.wholeCover f).length⟩⟩

/-- The tables after a rebuild of the coverage. -/
def recovered (t : Tables) : Tables :=
  { t with coverage := .ofFn fun f => (t.wholeCover f).map Block.toRow }

theorem covering_wholeCovers (t : Tables) :
    (t.covering (t.wholeCover .v4)).covering ((t.covering (t.wholeCover .v4)).wholeCover .v6) =
      t.recovered := rfl

theorem insertCoverageBlock_eq {past : List (Block f)} {b : Block f}
    (fresh : b.base ∉ past.map (·.base)) :
    Write.insertCoverageBlock b (t.covering past) = .ok ((), t.covering (past ++ [b])) := by
  have taken : ((t.covering past).coverage.get f).any (·.base == b.base.toCell) = false := by
    rw [covering, PerFamily.get_set_self]
    refine List.any_eq_false.mpr fun row member same => ?_
    obtain ⟨c, held, rfl⟩ := List.mem_map.mp member
    exact fresh (List.mem_map.mpr ⟨c, held, toCell_inj.mp (beq_iff_eq.mp same)⟩)
  unfold Write.insertCoverageBlock
  rw [taken]
  simp [covering]

/-- The netblocks cover an address exactly when a lookup finds one. -/
theorem Sound.scanned_iff_lookup (sound : t.Sound) (linked : t.Linked) (a : Addr f) :
    (∃ r ∈ scanned f (t.netblocks.get f), a ∈ r) ↔
      ∃ info, t.lookup f a = .ok (some info) := by
  have held : (∃ r ∈ scanned f (t.netblocks.get f), a ∈ r) ↔ ∃ n r, t.Holding f a n r := by
    constructor
    · rintro ⟨r, member, inside⟩
      obtain ⟨n, stored, range⟩ := mem_scanned_iff.mp member
      exact ⟨n, r, stored, range, inside⟩
    · rintro ⟨n, r, stored, range, inside⟩
      exact ⟨r, mem_scanned_iff.mpr ⟨n, stored, range⟩, inside⟩
  obtain ⟨found, lookup, some, -⟩ := exists_lookup sound linked f a
  rw [held, ← some, lookup, Option.isSome_iff_exists]
  simp only [Except.ok.injEq]

/-- What a rebuild of the coverage stores and reports for one family, told by lookups. -/
structure CoverageAgrees (t : Tables) (f : Family) (stats : FamilyCoverage) : Prop where
  /-- The coverage can be read and holds the addresses of which a lookup finds a netblock. -/
  cover : ∃ blocks, t.coverageOf f = .ok blocks ∧
    MinimalCover (fun a => ∃ info, t.lookup f a = .ok (some info)) blocks
  netblocks : stats.netblocks = (t.netblocks.get f).length
  runs : ∃ runs, MaximalRuns (fun a => ∃ info, t.lookup f a = .ok (some info)) runs ∧
    stats.cover.runs = runs.length
  blocks : stats.cover.blocks = (t.coverage.get f).length

theorem Sound.agrees_recovered (sound : t.Sound) (linked : t.Linked) (f : Family) :
    t.recovered.CoverageAgrees f (t.wholeCounts f) := by
  have sound' : t.recovered.Sound := sound.congr rfl rfl
  have linked' : t.recovered.Linked := linked.congr rfl rfl rfl
  have covered := sound'.scanned_iff_lookup linked' (f := f)
  have ordered := (sound.netblocks f).scanned_ordered
  have sorted := Range.mergeSort_ascending ((t.netblocks.get f).filterMap (·.range? f))
  have cover := minimalCover_canonicalCover ordered sorted
  have stored : t.recovered.coverage.get f = (t.wholeCover f).map Block.toRow :=
    PerFamily.get_ofFn _ f
  have read : t.recovered.coverageOf f = .ok (t.wholeCover f) := by
    rw [coverageOf, coverageRows, stored]
    exact cover.read_rows
  refine ⟨⟨_, read, cover.minimal.congr covered⟩, rfl,
    ⟨_, (coalesce_maximalRuns ordered sorted).congr covered, rfl⟩, ?_⟩
  rw [stored, List.length_map]
  rfl

end Tables

namespace Rebuild

variable {plan : FaultPlan} {before : List Call} {saved : Option Tables} {f : Family}
  {t : Tables} {s : Session}

/-! ## One family -/

/-- The coverage takes blocks of different bases. -/
theorem takes_insertCoverageBlock {blocks : List (Block f)}
    (distinct : (blocks.map (·.base)).Nodup) :
    CoverWriter.Takes (Session.insertCoverageBlock plan) blocks
      (fun past => Session.Calm plan before ⟨t.covering past, saved⟩)
      (Session.Hit plan before saved) := by
  intro past b rest s split calm
  have fresh := base_fresh distinct split
  exact (Session.exec_ends calm (Tables.insertCoverageBlock_eq fresh)).imp
    (fun _ _ done => done.2) fun _ => id

theorem writeCoverage_ends (sound : t.Sound)
    (calm : Session.Calm plan before ⟨t.covering ([] : List (Block f)), saved⟩ s) :
    Ends (writeCoverage plan f) (.empty f, s)
      (fun counts w => counts = t.wholeCounts f ∧
        Session.Calm plan before ⟨t.covering (t.wholeCover f), saved⟩ w.2)
      fun w => Session.Hit plan before saved w.2 := by
  have ordered := (sound.netblocks f).scanned_ordered
  have sorted := Range.mergeSort_ascending ((t.netblocks.get f).filterMap (·.range? f))
  have distinct := (minimalCover_canonicalCover ordered sorted).bases_nodup
  have scan : Ends (Session.call plan (.scanNetblocks f)
      (Database.query fun t => .ok (t.netblockRows f))) s _ _ :=
    Session.call_ends calm rfl
  refine Ends.bind (Ends.bind (Ends.onSecond (scan.imp (fun rows v done => ?_) fun _ => id)))
  obtain ⟨rfl, calm⟩ := done
  have rows : (t.covering ([] : List (Block f))).netblockRows f =
      (scanned f (t.netblocks.get f)).map Range.toRow := (sound.netblocks f).sort_cells
  rw [rows, Session.scanRows_toRow .stream ordered]
  have takes : CoverWriter.Takes (Session.insertCoverageBlock plan) (t.wholeCover f)
      (fun past => Session.Calm plan before ⟨t.covering past, saved⟩)
      (Session.Hit plan before saved) := takes_insertCoverageBlock distinct
  have cover := CoverWriter.cover_ends (s := v) takes calm
  have length : (scanned f (t.netblocks.get f)).length = (t.netblocks.get f).length := by
    have mapped := congrArg List.length (sound.netblocks f).sort_cells
    rw [List.length_mergeSort, List.length_map, List.length_map] at mapped
    exact mapped.symm
  rw [length]
  refine Ends.bind ((Ends.bind_iff.mp cover).imp (fun _ w finishes => ?_) fun _ => id)
  refine Ends.pure (Ends.bind (finishes.imp (fun counts v done => ?_) fun _ => id))
  obtain ⟨rfl, calm⟩ := done
  exact Ends.pure ⟨rfl, calm⟩

theorem coverFamily_ends (sound : t.Sound) (calm : Session.Calm plan before ⟨t, saved⟩ s) :
    Ends (coverFamily plan f) s
      (fun counts v => counts = t.wholeCounts f ∧
        Session.Calm plan before ⟨t.covering (t.wholeCover f), saved⟩ v)
      (Session.Hit plan before saved) := by
  have cleared : Write.clearCoverage f t = .ok ((), t.covering ([] : List (Block f))) := rfl
  refine Ends.bind_known (Session.exec_ends calm cleared) fun v calm => ?_
  exact Ends.withFirst (writeCoverage_ends sound calm)

/-! ## Both families -/

/-- What a rebuild of the coverage reports. -/
def coverageStats (t : Tables) : CoverageStats := ⟨t.wholeCounts .v4, t.wholeCounts .v6⟩

theorem coverAndCommit_ends (sound : t.Sound) (calm : Session.Calm plan before ⟨t, some t⟩ s) :
    Ends (coverAndCommit plan) s
      (fun stats v => stats = coverageStats t ∧ Session.Calm plan before ⟨t.recovered, none⟩ v)
      (Session.Hit plan before (some t)) := by
  have sound6 : (t.covering (t.wholeCover .v4)).Sound := sound.congr rfl rfl
  refine Ends.bind_known (coverFamily_ends sound calm) fun v calm => ?_
  refine Ends.bind_known (coverFamily_ends sound6 calm) fun v calm => ?_
  rw [Tables.covering_wholeCovers] at calm
  have committed : Database.commit.run ⟨t.recovered, some t⟩ = (.ok (), ⟨t.recovered, none⟩) := rfl
  refine Ends.bind_known (Session.call_ends calm committed) fun v calm => ?_
  exact Ends.pure ⟨rfl, calm⟩

/-- What became of the coverage: either it was replaced and no call failed, or a call failed and
everything is as it was. -/
inductive CoverageSettled (plan : FaultPlan) (t : Tables) (before : List Call) :
    Except Error CoverageStats × Session → Prop
  | replaced {s : Session} (calm : Session.Calm plan before ⟨t.recovered, none⟩ s) :
      CoverageSettled plan t before (.ok (coverageStats t), s)
  | rolledBack {s : Session} {e : Error} (since : before <:+ s.calls)
      (struck : plan.Struck before s.calls) (db : s.db = ⟨t, none⟩) :
      CoverageSettled plan t before (.error e, s)

/-- **The coverage** is replaced, or rolled back because a call was struck. -/
theorem coverage_settles (works : ∀ n, plan .rollback n = none) (sound : t.Sound)
    (closed : s.db = ⟨t, none⟩) :
    CoverageSettled plan t s.calls ((Rebuild.coverage plan).run s) := by
  have calm : Session.Calm plan s.calls ⟨t, none⟩ s := closed ▸ Session.calm_self s
  have noted : Session.Calm plan s.calls ⟨t, none⟩
      (s.noted ⟨.info, "rebuilding coverage union"⟩) := ⟨calm.since, calm.unstruck, calm.db⟩
  have began : Database.begin.run ⟨t, none⟩ = (.ok (), ⟨t, some t⟩) := rfl
  have begins : Ends (Session.begin plan) _ _ _ := Session.call_ends_or_unchanged noted began
  unfold Ends at begins
  show CoverageSettled plan t s.calls (Rebuild.coverage plan s)
  unfold Rebuild.coverage
  dsimp only
  split <;> rename_i ran <;> rw [ran] at begins
  · obtain ⟨db, hit⟩ := begins
    exact .rolledBack hit.since hit.struck db
  · have covers := coverAndCommit_ends sound begins.2
    unfold Ends at covers
    split <;> rename_i ran <;> rw [ran] at covers
    · obtain ⟨rfl, calm⟩ := covers
      exact .replaced ⟨calm.since, calm.unstruck, calm.db⟩
    · obtain ⟨db, calls⟩ := giveUp_rolls_back works covers.saved "coverage " _
      have grows := calls ▸ List.suffix_cons _ _
      exact .rolledBack (covers.since.trans grows) (covers.struck.mono grows) db

/-- A rebuild of the coverage in which no call fails is committed. -/
theorem coverage_commits (sound : t.Sound) (closed : s.db = ⟨t, none⟩) :
    ((Rebuild.coverage .none).run s).1 = .ok (coverageStats t) ∧
      ((Rebuild.coverage .none).run s).2.db = ⟨t.recovered, none⟩ := by
  have settles : CoverageSettled .none t s.calls ((Rebuild.coverage .none).run s) :=
    coverage_settles FaultPlan.none_works sound closed
  generalize (Rebuild.coverage .none).run s = result at settles ⊢
  cases settles with
  | replaced calm => exact ⟨rfl, calm.db⟩
  | rolledBack _ struck => exact absurd struck FaultPlan.none_not_struck

/-- A rebuild has replaced the coverage of some tables, and nothing else. -/
structure CoverageReplaced (t : Tables) (stats : CoverageStats) (db : Database) : Prop where
  /-- No transaction is left open. -/
  closed : db.saved = none
  /-- Registrars, organizations, netblocks, lists, members and unions are as they were. -/
  kept : db.tables = { t with coverage := db.tables.coverage }
  v4 : db.tables.CoverageAgrees .v4 stats.v4
  v6 : db.tables.CoverageAgrees .v6 stats.v6

/-- **The coverage agrees with lookups** once it is rebuilt, whatever it held before, readable or
not. -/
theorem coverage_agrees {db : Database} {imports : List Importer}
    (reached : Service.Reachable db imports) (closed : db.saved = none)
    (held : PerFamily fun _ => List BlockRow)
    (on : s.db = { db with tables := { db.tables with coverage := held } }) :
    ∃ stats, ((Rebuild.coverage .none).run s).1 = .ok stats ∧
      CoverageReplaced db.tables stats ((Rebuild.coverage .none).run s).2.db := by
  have sound : { db.tables with coverage := held }.Sound := reached.database.sound.1.congr rfl rfl
  have linked : { db.tables with coverage := held }.Linked :=
    reached.database.linked.1.congr rfl rfl rfl
  rw [closed] at on
  obtain ⟨ok, after⟩ := coverage_commits sound on
  refine ⟨_, ok, ?_⟩
  rw [after]
  exact ⟨rfl, rfl, sound.agrees_recovered linked .v4, sound.agrees_recovered linked .v6⟩

/-- A coverage that no netblock explains, with a row that is no block. -/
def strayCoverage : PerFamily fun _ => List BlockRow :=
  ⟨[⟨.integer 77, .integer 32⟩, ⟨.integer 99, .integer 300⟩], []⟩

/-- The small registry with another coverage than its own. -/
def strayed : Database :=
  { imported.db with tables := { imported.db.tables with coverage := strayCoverage } }

theorem coverage_agrees_strayed :
    (Service.Reachable imported.db imported.importer.toList ∧ imported.db.saved = none) ∧
      ∃ stats, ((Rebuild.coverage .none).run (.on strayed)).1 = .ok stats ∧
        CoverageReplaced imported.db.tables stats
          ((Rebuild.coverage .none).run (.on strayed)).2.db :=
  ⟨⟨imported_reachable, rfl⟩, coverage_agrees imported_reachable rfl strayCoverage rfl⟩

end Rebuild

end NetRegistry
