/-
# Proofs.Rebuild.Correct -- what a pass without failing calls leaves behind

`Tables.Built` says that one family of a list is what a predicate makes of the
stored netblocks: its members, its union and the counts reported of them.  It
speaks of the rows that are there, not of how a rebuild computes them.

**Main theorem** `rebuild_all_complete`: from any reachable database with no open
transaction, every list that selects anything is committed and built.
-/
import NetRegistry.Proofs.Rebuild.Pass
import NetRegistry.Proofs.Service.Reachable

namespace NetRegistry

set_option autoImplicit false

namespace Tables

variable {t u : Tables} {f : Family} {list : RowId} {p : Predicate}

/-- The netblock, joined with its registrar and its organization, satisfies the predicate. -/
def Satisfies (t : Tables) (p : Predicate) (n : NetblockRow) : Prop :=
  ∃ c, t.candidate? n = some c ∧ p.holds Text.matchesPattern c = true

/-- The address lies in the range of a member of the list. -/
def MemberCovers (t : Tables) (f : Family) (list : RowId) (a : Addr f) : Prop :=
  ∃ m ∈ t.membersOf f list, ∃ r, Read.bounds f (m.first, m.last) = .ok r ∧ a ∈ r

/-- One family of a list holds what the predicate selects, and the counts are right. -/
structure Built (t : Tables) (f : Family) (list : RowId) (p : Predicate) (stats : FamilyStats) :
    Prop where
  members : ∀ m, m ∈ t.membersOf f list ↔
    ∃ n ∈ t.netblocks.get f, t.Satisfies p n ∧ m = ⟨list, n.id, n.first, n.last, n.prefixLen⟩
  /-- Each netblock is a member once. -/
  once : ((t.membersOf f list).map (·.netblock)).Nodup
  ranges : ∀ m ∈ t.membersOf f list,
    ∃ r, Read.bounds f (m.first, m.last) = .ok r ∧ r.first ≤ r.last
  union : ∃ blocks, t.unionOf f list = .ok blocks ∧
    MinimalCover (t.MemberCovers f list) blocks ∧ stats.blocks = blocks.length
  memberCount : stats.members = (t.membersOf f list).length
  runCount : ∃ runs, MaximalRuns (t.MemberCovers f list) runs ∧ stats.runs = runs.length

theorem selects_iff {n : NetblockRow} : Write.selects t p n = true ↔ t.Satisfies p n := by
  unfold Write.selects Satisfies
  cases t.candidate? n <;> simp

theorem mem_chosen {n : NetblockRow} :
    n ∈ t.chosen f p ↔ n ∈ t.netblocks.get f ∧ t.Satisfies p n := by
  rw [chosen, List.mem_filter, selects_iff]

theorem listNamed?_of_stored? {name : String} {found : Contents}
    (stored : t.stored? name = some found) : t.listNamed? name = some found.row.id := by
  obtain ⟨row, located, rfl⟩ := Option.map_eq_some_iff.mp stored
  rw [listNamed?, located]
  rfl

theorem contents_of_stored? {name : String} {found : Contents}
    (stored : t.stored? name = some found) (f : Family) :
    t.membersOf f found.row.id = found.members.get f ∧
      (t.unions.get f).filter (·.list == found.row.id) = found.unions.get f := by
  obtain ⟨row, located, rfl⟩ := Option.map_eq_some_iff.mp stored
  constructor <;> dsimp only <;> rw [PerFamily.get_ofFn]

/-- A minimal cover that is stored comes back in its order. -/
theorem unionOf_eq {blocks : List (Block f)} {covered : Addr f → Prop}
    (cover : MinimalCover covered blocks)
    (rows : (t.unions.get f).filter (·.list == list) = blocks.map (·.asUnion list)) :
    t.unionOf f list = .ok blocks := by
  rw [unionOf, unionRows, rows, List.map_map]
  exact cover.read_rows

theorem bounds_of_mem_chosen (sound : t.Sound) {n : NetblockRow} (chosen : n ∈ t.chosen f p) :
    ∃ r, n.range? f = some r ∧ Read.bounds f (n.first, n.last) = .ok r ∧ r.first ≤ r.last := by
  obtain ⟨r, decoded, cells, ordered⟩ := (sound.chosen f p).range?_eq_some chosen
  refine ⟨r, decoded, ?_, ordered⟩
  show Read.bounds f n.cells = _
  rw [cells, bounds_toRow]

theorem memberCovers_iff (sound : t.Sound)
    (members : t.membersOf f list = (t.chosen f p).map (·.asMember list)) (a : Addr f) :
    t.Covered f p a ↔ t.MemberCovers f list a := by
  rw [MemberCovers, members]
  constructor
  · rintro ⟨n, chosen, r, decoded, inside⟩
    obtain ⟨s, decoded', bounds, -⟩ := bounds_of_mem_chosen sound chosen
    rw [decoded] at decoded'
    cases decoded'
    exact ⟨n.asMember list, List.mem_map.mpr ⟨n, chosen, rfl⟩, r, bounds, inside⟩
  · rintro ⟨m, member, r, decoded, inside⟩
    obtain ⟨n, chosen, rfl⟩ := List.mem_map.mp member
    refine ⟨n, chosen, r, ?_, inside⟩
    show (Read.bounds f (n.first, n.last)).toOption = _
    rw [show Read.bounds f (n.first, n.last) = .ok r from decoded]
    rfl

/-- What a rebuild stores is built. -/
theorem Sound.built (sound : t.Sound) {name : String} {row : ListRow}
    (stored : t.stored? name = some (t.contents row p)) (f : Family) :
    t.Built f row.id p (t.familyStats f p) := by
  obtain ⟨members, unions⟩ := contents_of_stored? stored f
  rw [contents, PerFamily.get_ofFn] at members unions
  have covers := memberCovers_iff sound members
  have union : t.unionOf f row.id = .ok (t.coverOf f p) :=
    unionOf_eq (coverOf_minimalCover sound f p) unions
  refine ⟨?_, ?_, ?_, ⟨_, union, (coverOf_minimalCover sound f p).congr covers, rfl⟩, ?_, ?_⟩
  · intro m
    rw [show t.membersOf f row.id = _ from members, List.mem_map]
    constructor
    · rintro ⟨n, chosen, rfl⟩
      obtain ⟨stored, satisfies⟩ := mem_chosen.mp chosen
      exact ⟨n, stored, satisfies, rfl⟩
    · rintro ⟨n, stored, satisfies, rfl⟩
      exact ⟨n, mem_chosen.mpr ⟨stored, satisfies⟩, rfl⟩
  · rw [show t.membersOf f row.id = _ from members, List.map_map]
    exact (sound.chosen f p).ids
  · intro m member
    rw [show t.membersOf f row.id = _ from members] at member
    obtain ⟨n, chosen, rfl⟩ := List.mem_map.mp member
    obtain ⟨r, -, bounds, ordered⟩ := bounds_of_mem_chosen sound chosen
    exact ⟨r, bounds, ordered⟩
  · rw [show t.membersOf f row.id = _ from members, List.length_map]
    rfl
  · exact ⟨_, (runs_maximalRuns sound f p).congr covers, rfl⟩

end Tables

namespace Rebuild

/-- A pass reports one outcome for each definition, and has built every list that selects
anything. -/
structure Complete (defs : List Definition) (pass : Report × Session) : Prop where
  /-- No transaction is left open. -/
  closed : pass.2.db.saved = none
  names : (pass.1.lists.map (·.1)).Perm (defs.map (·.name))
  skipped : ∀ name outcome, (name, outcome) ∈ pass.1.lists →
    (Definition.compile defs name).1 = none → outcome = .skipped
  committed : ∀ name outcome p, (name, outcome) ∈ pass.1.lists →
    (Definition.compile defs name).1 = some p →
    ∃ stats : ListStats, outcome = .committed stats ∧
      pass.2.db.tables.listNamed? name = some stats.list ∧
      pass.2.db.tables.Built .v4 stats.list p stats.v4 ∧
      pass.2.db.tables.Built .v6 stats.list p stats.v6

variable {db : Database} {imports : List Importer} {defs : List Definition} {s : Session}

theorem none_unstruck (turn : Turn) : ¬ turn.Struck .none := FaultPlan.none_not_struck

/-- **A pass without failing calls** is complete. -/
theorem rebuild_all_complete (mode : FetchMode) (reached : Service.Reachable db imports)
    (closed : db.saved = none) (distinct : (defs.map (·.name)).Nodup) (on : s.db = db) :
    Complete defs (all .none mode defs s) := by
  have start : s.db = ⟨db.tables, none⟩ := by rw [on, ← closed]
  obtain ⟨u, after, sound, same, -, fates⟩ :=
    all_pass mode FaultPlan.none_works distinct reached.database.sound.1 start
  have listed : ∀ name outcome, (name, outcome) ∈ (all .none mode defs s).1.lists →
      ∃ turn ∈ turns .none mode defs s, turn.name = name ∧ turn.outcome = outcome := by
    intro name outcome member
    rw [lists_all] at member
    obtain ⟨turn, inside, same⟩ := List.mem_map.mp member
    exact ⟨turn, inside, congrArg Prod.fst same, congrArg Prod.snd same⟩
  refine ⟨by rw [after], ?_, ?_, ?_⟩
  · have names := (definitions_turns_perm .none mode defs s).map (·.name)
    rw [lists_all, List.map_map]
    rw [List.map_map] at names
    exact names
  · intro name outcome member empty
    obtain ⟨turn, inside, rfl, rfl⟩ := listed name outcome member
    cases fates turn inside with
    | skipped _ outcome => exact outcome
    | committed compiled => rw [empty] at compiled; cases compiled
    | rolledBack _ _ struck => exact absurd struck (none_unstruck turn)
  · intro name outcome p member compiled
    obtain ⟨turn, inside, rfl, rfl⟩ := listed name outcome member
    cases fates turn inside with
    | skipped empty => rw [compiled] at empty; cases empty
    | rolledBack _ _ struck => exact absurd struck (none_unstruck turn)
    | @committed q row compiled' outcome _ stored =>
      rw [compiled] at compiled'
      cases compiled'
      rw [← same.contents] at stored
      refine ⟨_, outcome, ?_⟩
      rw [after, ← statsOf_congr same]
      exact ⟨Tables.listNamed?_of_stored? stored, sound.built stored .v4, sound.built stored .v6⟩

/-! ## A small registry -/

/-- A netblock with a name only. -/
def named (name : String) : Attributes := ⟨none, name, ""⟩

/-- A service that has imported two adjacent netblocks of one family and one of the other. -/
def imported : Service :=
  let s := (Service.handle (.beginImport "TEST") .empty).2
  let s := (Service.handle (.insertNetblock .v4 (.range (.wrap .v4 256) (.wrap .v4 511) 24)
    (named "A-1")) s).2
  let s := (Service.handle (.insertNetblock .v4 (.range (.wrap .v4 0) (.wrap .v4 255) 24)
    (named "A-2")) s).2
  let s := (Service.handle (.insertNetblock .v6 (.range (.wrap .v6 8) (.wrap .v6 15) 125)
    (named "B")) s).2
  (Service.handle (.finishImport 1) s).2

/-- Lists of which one selects nothing and one includes another. -/
def watched : List Definition :=
  [(Definition.named "all").including "a" |>.wanting .netname "B%",
    Definition.named "nothing", (Definition.named "a").wanting .netname "A-%"]

theorem imported_reachable : Service.Reachable imported.db imported.importer.toList :=
  ((((Service.Reachable.empty.next _ rfl).next _ rfl).next _ rfl).next _ rfl).next _ rfl

theorem rebuild_all_complete_imported :
    (Service.Reachable imported.db imported.importer.toList ∧ imported.db.saved = none ∧
      (watched.map (·.name)).Nodup) ∧
    Complete watched (all .none .stream watched (.on imported.db)) :=
  ⟨⟨imported_reachable, rfl, by decide⟩,
    rebuild_all_complete .stream imported_reachable rfl (by decide) rfl⟩

end Rebuild

end NetRegistry
