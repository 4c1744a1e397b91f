/-
# Proofs.Service.Containment -- what a lookup in the union of a list tells

The union of a list is looked up by a single candidate, the last block that
starts at or below the address.  That is right only because the blocks are
disjoint, and it means something only because nothing but a committed rebuild of
the list touches them.

* `DisjointCover.candidate_iff`: among disjoint blocks the candidate is the only
  block that can contain the address.
* `Tables.unionLookup_eq`: a lookup reads the row of the candidate alone.
* `shelved_after`: along a routine history the union of every list is the minimal
  cover of what its members covered at its last committed rebuild
  (`CoveredAtRebuild`), whatever was imported, refused or rolled back since.

**Main theorem** `union_contains`.
-/
import NetRegistry.Proofs.Rebuild.Correct
import NetRegistry.Proofs.Service.Moves

namespace NetRegistry

set_option autoImplicit false

/-! ## The only candidate -/

theorem DisjointCover.candidate_iff {f : Family} {covered : Addr f → Prop} {blocks : List (Block f)}
    (cover : DisjointCover covered blocks) (a : Addr f) (b : Block f) :
    (blocks.filter (·.base ≤ a)).getLast?.filter (·.contains a) = some b ↔ b ∈ blocks ∧ a ∈ b := by
  rw [Option.filter_eq_some_iff]
  constructor
  · rintro ⟨last, inside⟩
    exact ⟨(List.mem_filter.mp (List.mem_of_getLast? last)).1, inside⟩
  · rintro ⟨member, inside⟩
    refine ⟨?_, inside⟩
    obtain ⟨low, high⟩ := (cover.valid b member).mem_iff.mp inside
    have below : b ∈ blocks.filter (·.base ≤ a) := List.mem_filter.mpr ⟨member, decide_eq_true low⟩
    have ascending := cover.ascending.filter fun b => decide (b.base ≤ a)
    obtain ⟨earlier, last⟩ := List.getLast?_eq_some_iff.mp
      (List.getLast?_eq_some_getLast (List.ne_nil_of_mem below))
    generalize (blocks.filter (·.base ≤ a)).getLast (List.ne_nil_of_mem below) = c at last
    rw [last] at below ascending ⊢
    rw [List.getLast?_concat]
    rcases List.mem_append.mp below with before | same
    · -- Then the candidate starts above the address, which it does not.
      have candidate : c ∈ blocks.filter (·.base ≤ a) := by
        rw [last]
        exact List.mem_append_right _ (List.mem_singleton.mpr rfl)
      have starts : c.base ≤ a := of_decide_eq_true (List.mem_filter.mp candidate).2
      have after : b.last < c.base :=
        (List.pairwise_append.mp ascending).2.2 b before c (List.mem_singleton.mpr rfl)
      rw [Addr.le_def] at high starts
      rw [Addr.lt_def] at after
      omega
    · rw [List.mem_singleton.mp same]

namespace Tables

variable {t : Tables} {f : Family} {list : RowId} {blocks : List (Block f)}

theorem filter_toRow (blocks : List (Block f)) (a : Addr f) :
    (blocks.map Block.toRow).filter (·.base.le a.toCell) =
      (blocks.filter (·.base ≤ a)).map Block.toRow := by
  rw [List.filter_map]
  congr 2
  funext b
  exact toCell_le b.base a

/-- If a union can be read, so can the row of the candidate. -/
theorem unionLookup_eq (read : t.unionOf f list = .ok blocks) (a : Addr f) :
    t.unionLookup f list a =
      .ok ((blocks.filter (·.base ≤ a)).getLast?.filter (·.contains a)) := by
  obtain ⟨rows, fits⟩ := mapM_block_eq_ok_iff.mp read
  rw [unionLookup, rows, filter_toRow, List.getLast?_map]
  cases last : (blocks.filter (·.base ≤ a)).getLast? with
  | none => rfl
  | some b =>
    have member : b ∈ blocks := (List.mem_filter.mp (List.mem_of_getLast? last)).1
    have own : Read.block f b.toRow = .ok b := block_eq_ok_iff.mpr ⟨rfl, fits b member⟩
    simp only [Option.map_some, own]
    rfl

end Tables

/-! ## What a list covered when it was last rebuilt -/

namespace Service

/-- The request rebuilt the named list and committed it. -/
def Commits (e : Event) (past : List Event) (name : String) : Prop :=
  ∃ stats, (name, .committed stats) ∈ e.request.outcomes (answer e.request (empty.after past))

/-- The address was covered by a member of the named list right after the last request that rebuilt
the list and committed it. -/
inductive CoveredAtRebuild (name : String) (f : Family) (a : Addr f) : List Event → Prop
  | rebuilt {e : Event} {past : List Event} {list : RowId} (commits : Commits e past name)
      (listed : (empty.after (e :: past)).db.tables.listNamed? name = some list)
      (covers : (empty.after (e :: past)).db.tables.MemberCovers f list a) :
      CoveredAtRebuild name f a (e :: past)
  | since {e : Event} {past : List Event} (kept : ¬ Commits e past name)
      (covered : CoveredAtRebuild name f a past) : CoveredAtRebuild name f a (e :: past)

variable {name : String} {f : Family} {a : Addr f} {e : Event} {past : List Event}

theorem coveredAtRebuild_kept (kept : ¬ Commits e past name) :
    CoveredAtRebuild name f a (e :: past) ↔ CoveredAtRebuild name f a past := by
  constructor
  · intro covered
    cases covered with
    | rebuilt commits => exact absurd commits kept
    | since _ covered => exact covered
  · exact .since kept

theorem coveredAtRebuild_rebuilt (commits : Commits e past name) {list : RowId}
    (listed : (empty.after (e :: past)).db.tables.listNamed? name = some list) :
    CoveredAtRebuild name f a (e :: past) ↔
      (empty.after (e :: past)).db.tables.MemberCovers f list a := by
  constructor
  · intro covered
    cases covered with
    | since kept => exact absurd commits kept
    | rebuilt _ listed' covers =>
      rw [listed] at listed'
      cases listed'
      exact covers
  · exact .rebuilt commits listed

/-! ## Unions along a history -/

/-- The union of every list can be read, and is the minimal cover of what the list covered when it was
last rebuilt. -/
def Shelved (history : List Event) (t : Tables) : Prop :=
  ∀ name row, t.lists.find? (·.name == name) = some row → ∀ f,
    ∃ blocks, t.unionOf f row.id = .ok blocks ∧
      MinimalCover (fun a => CoveredAtRebuild name f a history) blocks

/-- A rollback would leave the same lists and unions. -/
def Secured (db : Database) : Prop :=
  ∀ t ∈ db.saved, t.lists = db.tables.lists ∧ t.unions = db.tables.unions

theorem Shelved.kept {t u : Tables} (shelved : Shelved past t) (lists : u.lists = t.lists)
    (unions : u.unions = t.unions) (kept : ∀ name, ¬ Commits e past name) :
    Shelved (e :: past) u := by
  intro name row found f
  rw [lists] at found
  have same : u.unionOf f row.id = t.unionOf f row.id := by
    rw [Tables.unionOf, Tables.unionOf, Tables.unionRows, Tables.unionRows, unions]
  rw [same]
  obtain ⟨blocks, read, cover⟩ := shelved name row found f
  exact ⟨blocks, read, cover.congr fun a => (coveredAtRebuild_kept (kept name)).symm⟩

theorem listNamed?_of_find? {t : Tables} {row : ListRow}
    (found : t.lists.find? (·.name == name) = some row) : t.listNamed? name = some row.id := by
  rw [Tables.listNamed?, found]
  rfl

/-- Tables that store the same under a name have the same union there. -/
theorem unionOf_congr {t u : Tables} (stored : u.stored? name = t.stored? name) {row : ListRow}
    (found : u.lists.find? (·.name == name) = some row) :
    t.lists.find? (·.name == name) = some row ∧ u.unionOf f row.id = t.unionOf f row.id := by
  rw [Tables.stored?, found, Option.map_some] at stored
  obtain ⟨row', found', same⟩ := Option.map_eq_some_iff.mp stored.symm
  obtain rfl : row' = row := congrArg Tables.Contents.row same
  refine ⟨found', ?_⟩
  have unions := congrArg (fun c => (Tables.Contents.unions c).get f) same
  simp only [PerFamily.get_ofFn] at unions
  rw [Tables.unionOf, Tables.unionOf, Tables.unionRows, Tables.unionRows, unions]

/-- What a rebuild does to unions is told by its report. -/
theorem Shelved.rebuilt {t u : Tables} (shelved : Shelved past t)
    (after : (empty.after (e :: past)).db.tables = u)
    (passed : Rebuild.Passed (e.request.outcomes (answer e.request (empty.after past))) t u) :
    Shelved (e :: past) u := by
  intro name row found f
  by_cases commits : Commits e past name
  · obtain ⟨stats, member⟩ := commits
    obtain ⟨p, row', stored⟩ := passed.committed name stats member
    have listed := listNamed?_of_find? found
    obtain rfl : row' = row := by
      obtain ⟨row'', found', same⟩ := Option.map_eq_some_iff.mp stored
      rw [found] at found'
      cases found'
      exact (congrArg Tables.Contents.row same).symm
    obtain ⟨blocks, read, cover, -⟩ := (passed.sound.built stored f).union
    rw [← after] at listed
    refine ⟨blocks, read, cover.congr fun a => ?_⟩
    rw [coveredAtRebuild_rebuilt ⟨stats, member⟩ listed, after]
  · have kept := passed.kept name fun stats member => commits ⟨stats, member⟩
    obtain ⟨found', same⟩ := unionOf_congr kept found
    rw [same]
    obtain ⟨blocks, read, cover⟩ := shelved name row found' f
    exact ⟨blocks, read, cover.congr fun a => (coveredAtRebuild_kept commits).symm⟩

section Reports

variable {α : Type} {r : Request α} {b : Except Failure α}

theorem outcomes_of_insert (insert : r.isInsert = true) : r.outcomes b = [] := by
  cases r <;> first | rfl | exact Bool.noConfusion insert

theorem outcomes_of_end (ends : r.endsImport = true) : r.outcomes b = [] := by
  cases r <;> first | rfl | exact Bool.noConfusion ends

/-- A refused request reports no committed list. -/
theorem not_committed_of_refused (refused : r.Refused b) (name : String) (stats : ListStats) :
    (name, .committed stats) ∉ r.outcomes b := by
  intro member
  cases b with
  | error e =>
    have none : r.outcomes (.error e) = [] := by cases r <;> rfl
    rw [none] at member
    cases member
  | ok report =>
    cases r with
    | rebuild plan mode defs => exact Bool.noConfusion (refused _ member)
    | refresh plan mode defs => exact Bool.noConfusion (refused.2 _ member)
    | rebuildList plan mode listed p =>
      obtain ⟨-, rfl⟩ := Prod.mk.inj (List.mem_singleton.mp member)
      exact Bool.noConfusion refused
    | _ => exact refused

end Reports

/-- One request: whatever it does, unions follow the reports. -/
theorem Moves.shelved {b : Except Failure e.Answer} {s u : Service} (moves : Moves e.request b s u)
    (answered : answer e.request (empty.after past) = b) (after : empty.after (e :: past) = u)
    (shelved : Shelved past s.db.tables) (secured : Secured s.db) :
    Shelved (e :: past) u.db.tables ∧ Secured u.db := by
  have commits : ∀ name, Commits e past name →
      ∃ stats, (name, .committed stats) ∈ e.request.outcomes b := by
    intro name commits
    rw [Commits, answered] at commits
    exact commits
  have quiet : e.request.outcomes b = [] → ∀ name, ¬ Commits e past name := by
    intro none name committed
    obtain ⟨stats, member⟩ := commits name committed
    rw [none] at member
    cases member
  have closed : ∀ t : Tables, Secured ⟨t, none⟩ := fun t u saved => by cases saved
  obtain ⟨r⟩ := e
  cases moves with
  | refused refused =>
    refine ⟨shelved.kept rfl rfl fun name committed => ?_, secured⟩
    obtain ⟨stats, member⟩ := commits name committed
    exact not_committed_of_refused refused name stats member
  | nothing kind => exact ⟨shelved.kept rfl rfl (quiet (outcomes_of_end kind)), secured⟩
  | @began name t i begins =>
    have lists : (t.registered name).2.lists = t.lists := by rw [Tables.registered_eq]
    have unions : (t.registered name).2.unions = t.unions := by rw [Tables.registered_eq]
    refine ⟨shelved.kept lists unions (quiet rfl), ?_⟩
    intro u saved
    obtain rfl := Option.some.inj saved
    exact ⟨lists.symm, unions.symm⟩
  | wrote insert continues writes =>
    have frame := (writes .empty).frame
    refine ⟨shelved.kept frame.lists frame.unions (quiet (outcomes_of_insert insert)), ?_⟩
    intro v saved
    obtain ⟨lists, unions⟩ := secured v saved
    exact ⟨lists.trans frame.lists.symm, unions.trans frame.unions.symm⟩
  | finished settled => exact ⟨shelved.kept settled.lists settled.unions (quiet rfl), closed _⟩
  | aborted =>
    obtain ⟨lists, unions⟩ := secured _ rfl
    exact ⟨shelved.kept lists unions (quiet rfl), closed _⟩
  | dropped =>
    obtain ⟨lists, unions⟩ := secured _ rfl
    exact ⟨shelved.kept lists unions (quiet rfl), closed _⟩
  | rebuilt rebuild passed =>
    refine ⟨shelved.rebuilt ?_ ?_, closed _⟩
    · rw [after]
    · rw [answered]
      exact passed

/-- **Along a routine history** only committed rebuilds touch the unions of lists. -/
theorem shelved_after {history : List Event} (routine : ∀ e ∈ history, e.Routine) :
    Shelved history (empty.after history).db.tables ∧ Secured (empty.after history).db := by
  induction history with
  | nil =>
    refine ⟨?_, ?_⟩
    · intro name row found
      cases found
    · intro t saved
      cases saved
  | cons e past ih =>
    obtain ⟨shelved, secured⟩ := ih fun d member => routine d (List.mem_cons_of_mem _ member)
    exact (moves_after routine).shelved rfl rfl shelved secured

/-! ## Lookups -/

/-- What a lookup of an address tells after a history of a list whose union is some blocks. -/
structure Contains (history : List Event) (row : ListRow) {f : Family} (blocks : List (Block f))
    (a : Addr f) : Prop where
  /-- The union can be read. -/
  read : (empty.after history).db.tables.unionOf f row.id = .ok blocks
  valid : ∀ b ∈ blocks, b.Valid
  /-- The blocks ascend and no two overlap. -/
  ascending : blocks.Pairwise fun b c => b.last < c.base
  /-- The lookup cannot fail. -/
  answered : ∃ found, answer (.unionLookup row.id a) (empty.after history) = .ok found
  /-- It finds the block of the union that contains the address. -/
  found : ∀ b : Block f, answer (.unionLookup row.id a) (empty.after history) = .ok (some b) ↔
    b ∈ blocks ∧ a ∈ b
  /-- There is no other such block. -/
  only : ∀ b ∈ blocks, ∀ c ∈ blocks, a ∈ b → a ∈ c → b = c
  /-- There is one exactly when a member covered the address as the list was last rebuilt. -/
  covered : (∃ b, answer (.unionLookup row.id a) (empty.after history) = .ok (some b)) ↔
    CoveredAtRebuild row.name f a history

/-- **List containment agrees with the stored union**, after every history of imports and rebuilds,
whatever failed in it and was rolled back. -/
theorem union_contains {history : List Event} (routine : ∀ e ∈ history, e.Routine) :
    ∀ row ∈ (empty.after history).db.tables.lists, ∀ f : Family, ∃ blocks : List (Block f),
      ∀ a, Contains history row blocks a := by
  intro row listed f
  have sound := (reachable_after fun e member => (routine e member).visible).database.sound.1
  have named : (empty.after history).db.tables.lists.find? (·.name == row.name) = some row :=
    find?_key sound.listNames listed
  obtain ⟨blocks, read, cover⟩ := (shelved_after routine).1 row.name row named f
  refine ⟨blocks, fun a => ?_⟩
  have answered : answer (.unionLookup row.id a) (empty.after history) =
      .ok ((blocks.filter (·.base ≤ a)).getLast?.filter (·.contains a)) := by
    show (((empty.after history).db.tables.unionLookup f row.id a).mapError Error.storage).mapError
      Failure.error = _
    rw [Tables.unionLookup_eq read]
    rfl
  have lookup : ∀ b, answer (.unionLookup row.id a) (empty.after history) = .ok (some b) ↔
      b ∈ blocks ∧ a ∈ b := by
    intro b
    rw [← cover.candidate_iff a b, answered, Except.ok.injEq]
  refine ⟨read, cover.valid, cover.ascending, ⟨_, answered⟩, lookup, ?_, ?_⟩
  · intro b memberB c memberC inB inC
    exact cover.eq_of_mem memberB memberC inB inC
  · rw [← cover.exact a]
    exact exists_congr lookup

/-- After an import and one that was dropped, a list of everything is rebuilt. -/
def listed : List Event := ⟨.rebuildList .none .stream "all" (.and [])⟩ :: dropped

theorem union_contains_listed :
    (∀ e ∈ listed, e.Routine) ∧ ∃ row ∈ (empty.after listed).db.tables.lists,
      (∀ f, ∃ blocks : List (Block f), ∀ a, Contains listed row blocks a) ∧
      ∃ b, answer (.unionLookup row.id (Addr.wrap .v4 77)) (empty.after listed) = .ok (some b) := by
  have routine : ∀ e ∈ listed, e.Routine :=
    List.forall_mem_cons.mpr ⟨⟨rfl, fun _ => rfl⟩, dropped_routine⟩
  have sound := (reachable_after fun e member =>
    (dropped_routine e member).visible).database.sound.1
  obtain ⟨outcome, db⟩ := @Rebuild.list_commits (empty.after dropped).db.tables
    (.on (empty.after dropped).db) .stream sound rfl "all" (.and [])
  have after : (empty.after listed).db = _ := db
  have member : ⟨1, "all"⟩ ∈ (empty.after listed).db.tables.lists := by
    rw [after]
    exact List.mem_singleton.mpr rfl
  have named : (empty.after listed).db.tables.listNamed? "all" = some 1 := by
    rw [after]
    rfl
  have covers : (empty.after listed).db.tables.MemberCovers .v4 1 (.wrap .v4 77) := by
    rw [after]
    exact ⟨⟨1, 1, (Addr.wrap .v4 0).toCell, (Addr.wrap .v4 255).toCell, 24⟩,
      List.mem_singleton.mpr rfl, ⟨.wrap .v4 0, .wrap .v4 255⟩, rfl, rfl⟩
  have contains := union_contains routine ⟨1, "all"⟩ member
  obtain ⟨blocks, found⟩ := contains .v4
  refine ⟨routine, ⟨1, "all"⟩, member, contains, (found (.wrap .v4 77)).covered.mpr ?_⟩
  exact .rebuilt ⟨_, List.mem_singleton.mpr (congrArg (Prod.mk "all") outcome.symm)⟩ named covers

end Service

end NetRegistry
