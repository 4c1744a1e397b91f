/-
# Proofs.Rebuild.List -- one list, whatever calls fail

A build inside a transaction either carries out every call, and then the tables
are `Tables.rebuilt` and the answer is `statsOf`, or stops at a call that the plan
strikes (`build_ends`).  With the transaction around it a list is rebuilt or left
as it was, and no transaction stays open.

**Main theorem** `list_settles`: which of the two happens is decided by whether a
call was struck, and nothing else can fail.
-/
import NetRegistry.Proofs.Cover.Writer
import NetRegistry.Proofs.Rebuild.Rebuilt
import NetRegistry.Proofs.Store.Session
import NetRegistry.Rebuild.Lists

namespace NetRegistry

set_option autoImplicit false

open Fallible (Ends)

namespace Tables

variable {f : Family} {list : RowId} {t u : Tables} {p : Predicate}

/-! ## The statements of a build -/

/-- The tables without the members and the union of a list in one family. -/
def cleared (t : Tables) (f : Family) (list : RowId) : Tables :=
  { t with
    members := t.members.set f ((t.members.get f).filter (·.list != list))
    unions := t.unions.set f ((t.unions.get f).filter (·.list != list)) }

/-- The tables with netblocks added to a list. -/
def joined (t : Tables) (f : Family) (list : RowId) (rows : List NetblockRow) : Tables :=
  { t with members := t.members.set f (t.members.get f ++ rows.map (·.asMember list)) }

/-- The tables with blocks added to the union of a list. -/
def united (t : Tables) (list : RowId) (blocks : List (Block f)) : Tables :=
  { t with unions := t.unions.set f (t.unions.get f ++ blocks.map (·.asUnion list)) }

/-- The list is there and has neither members nor a union in the family. -/
structure Vacant (t : Tables) (f : Family) (list : RowId) : Prop where
  listed : t.hasList list = true
  members : t.membersOf f list = []
  unions : ∀ u ∈ t.unions.get f, u.list ≠ list

theorem clearList_eq (t : Tables) (f : Family) (list : RowId) :
    Write.clearList f list t = .ok ((), t.cleared f list) := rfl

theorem populate_eq (vacant : t.Vacant f list) (p : Predicate) :
    Write.populate f list p t = .ok ((t.chosen f p).length, t.joined f list (t.chosen f p)) := by
  unfold Write.populate
  dsimp only
  rw [vacant.members, vacant.listed]
  simp only [List.any_nil, Bool.not_true, Bool.and_false, Bool.false_eq_true, if_false]
  split
  · rename_i conflict
    simp at conflict
  · rfl

theorem insertUnionBlock_eq {past : List (Block f)} {b : Block f} (listed : t.hasList list = true)
    (unions : ∀ u ∈ t.unions.get f, u.list ≠ list) (fresh : b.base ∉ past.map (·.base)) :
    Write.insertUnionBlock list b (t.united list past) = .ok ((), t.united list (past ++ [b])) := by
  have taken : ((t.united list past).unions.get f).any
      (fun u => u.list == list && u.block.base == b.base.toCell) = false := by
    rw [united, PerFamily.get_set_self]
    refine List.any_eq_false.mpr fun u member both => ?_
    simp only [Bool.and_eq_true, beq_iff_eq] at both
    rcases List.mem_append.mp member with old | new
    · exact unions u old both.1
    · obtain ⟨c, inside, rfl⟩ := List.mem_map.mp new
      exact fresh (List.mem_map.mpr ⟨c, inside, toCell_inj.mp both.2⟩)
  have still : (t.united list past).hasList list = true := listed
  unfold Write.insertUnionBlock
  rw [taken, still]
  simp [united, Block.asUnion]

end Tables

namespace Rebuild

variable {plan : FaultPlan} (mode : FetchMode) {before : List Call} {saved : Option Tables}
  {f : Family} {list : RowId} {t : Tables} {s : Session} {p : Predicate}

/-! ## The union of one family -/

/-- Of blocks with different bases none has the base of an earlier one. -/
theorem base_fresh {blocks past rest : List (Block f)} {b : Block f}
    (distinct : (blocks.map (·.base)).Nodup) (split : blocks = past ++ b :: rest) :
    b.base ∉ past.map (·.base) := by
  rw [split, List.map_append, List.map_cons] at distinct
  intro member
  exact (List.nodup_append.mp distinct).2.2 _ member _ List.mem_cons_self rfl

/-- The union of a list takes blocks of different bases. -/
theorem takes_insertUnionBlock (listed : t.hasList list = true)
    (unions : ∀ u ∈ t.unions.get f, u.list ≠ list) {blocks : List (Block f)}
    (distinct : (blocks.map (·.base)).Nodup) :
    CoverWriter.Takes (Session.insertUnionBlock plan list) blocks
      (fun past => Session.Calm plan before ⟨t.united list past, saved⟩)
      (Session.Hit plan before saved) := by
  intro past b rest s split calm
  have fresh := base_fresh distinct split
  exact (Session.exec_ends calm (Tables.insertUnionBlock_eq listed unions fresh)).imp
    (fun _ _ done => done.2) fun _ => id

theorem writeUnion_ends {ranges : List (Range f)} (listed : t.hasList list = true)
    (unions : ∀ u ∈ t.unions.get f, u.list ≠ list)
    (rows : t.memberRows f list = ranges.map Range.toRow)
    (ordered : ∀ r ∈ ranges, r.first ≤ r.last)
    (sorted : ranges.Pairwise fun r s => r.first ≤ s.first)
    (calm : Session.Calm plan before ⟨t, saved⟩ s) :
    Ends (writeUnion plan mode f list) (.empty f, s)
      (fun counts w => counts = ⟨(coalesce ranges).length, (minimalCover ranges).length⟩ ∧
        Session.Calm plan before ⟨t.united list (minimalCover ranges), saved⟩ w.2)
      fun w => Session.Hit plan before saved w.2 := by
  have distinct := (minimalCover_canonicalCover ordered sorted).bases_nodup
  have scan : Ends (Session.call plan (.scanMembership f list mode)
      (Database.query fun t => .ok (t.memberRows f list))) s _ _ :=
    Session.call_ends calm rfl
  refine Ends.bind (Ends.bind (Ends.onSecond (scan.imp (fun r v done => ?_) fun _ => id)))
  obtain ⟨rfl, calm⟩ := done
  rw [rows, Session.scanRows_toRow mode ordered]
  have start : t.united list ([] : List (Block f)) = t := by
    cases f <;> simp [Tables.united, PerFamily.set, PerFamily.get]
  have takes : CoverWriter.Takes (Session.insertUnionBlock plan list) (minimalCover ranges)
      (fun past => Session.Calm plan before ⟨t.united list past, saved⟩)
      (Session.Hit plan before saved) := takes_insertUnionBlock listed unions distinct
  have cover := CoverWriter.cover_ends (s := v) takes (by rw [start]; exact calm)
  exact Ends.bind ((Ends.bind_iff.mp cover).imp (fun _ _ ends => Ends.pure ends) fun _ => id)

/-! ## One family -/

/-- The tables with the members and the union of a list filled in one family. -/
def filled (t : Tables) (f : Family) (list : RowId) (p : Predicate) : Tables :=
  (t.joined f list (t.chosen f p)).united list (t.coverOf f p)

theorem buildFamily_ends (sound : t.Sound) (vacant : t.Vacant f list)
    (calm : Session.Calm plan before ⟨t, saved⟩ s) :
    Ends (buildFamily plan mode f list p) s
      (fun stats v => stats = t.familyStats f p ∧
        Session.Calm plan before ⟨filled t f list p, saved⟩ v)
      (Session.Hit plan before saved) := by
  have rowsSound := sound.chosen f p
  have rows : (t.joined f list (t.chosen f p)).memberRows f list =
      (scanned f (t.chosen f p)).map Range.toRow := by
    have members : (t.joined f list (t.chosen f p)).membersOf f list =
        (t.chosen f p).map (·.asMember list) := by
      have own : ((t.chosen f p).map (·.asMember list)).filter (·.list == list) =
          (t.chosen f p).map (·.asMember list) := by
        refine List.filter_eq_self.mpr fun m member => ?_
        obtain ⟨n, -, rfl⟩ := List.mem_map.mp member
        exact beq_self_eq_true list
      have others : (t.members.get f).filter (·.list == list) = [] := vacant.members
      rw [Tables.membersOf, Tables.joined, PerFamily.get_set_self, List.filter_append, own, others,
        List.nil_append]
    rw [Tables.memberRows, members, List.map_map, ← rowsSound.sort_cells]
    rfl
  refine Ends.bind_known (Session.exec_ends calm (Tables.populate_eq vacant p)) fun v calm => ?_
  have union := writeUnion_ends mode (t := t.joined f list (t.chosen f p)) vacant.listed
    vacant.unions rows rowsSound.scanned_ordered (Range.mergeSort_ascending _) calm
  refine Ends.bind_known (Ends.withFirst union) fun v calm => ?_
  exact Ends.pure ⟨rfl, calm⟩

/-! ## One list -/

/-- What a rebuild of a list reports. -/
def statsOf (t : Tables) (list : RowId) (p : Predicate) : ListStats :=
  ⟨list, t.familyStats .v4 p, t.familyStats .v6 p⟩

/-- The tables with a list added, if need be, and emptied. -/
def vacated (t : Tables) (name : String) : Tables :=
  let row := (t.ensured name).1
  ({ t with lists := (t.ensured name).2 }.cleared .v4 row.id).cleared .v6 row.id

theorem sameRecords_vacated (t : Tables) (name : String) : t.SameRecords (vacated t name) :=
  ⟨rfl, rfl, rfl, rfl⟩

theorem vacated_sound (sound : t.Sound) (name : String) : (vacated t name).Sound :=
  (sound.ensured name).congr rfl rfl

theorem membersOf_cleared {members : List MemberRow} :
    (members.filter (·.list != list)).filter (·.list == list) = [] := by
  rw [List.filter_filter]
  refine List.filter_eq_nil_iff.mpr fun m _ both => ?_
  simp at both

theorem list_ne_of_cleared {unions : List UnionRow} :
    ∀ u ∈ unions.filter (·.list != list), u.list ≠ list := by
  intro u member
  simpa using (List.mem_filter.mp member).2

theorem vacant_vacated (t : Tables) (name : String) (f : Family) :
    (vacated t name).Vacant f (t.ensured name).1.id := by
  refine ⟨List.any_eq_true.mpr ⟨(t.ensured name).1, ?_, beq_self_eq_true _⟩, ?_, ?_⟩
  · exact List.mem_of_find?_eq_some (Tables.find?_ensured t name)
  · cases f <;> exact membersOf_cleared
  · cases f <;> exact list_ne_of_cleared

/-- Filling both families of the emptied list gives the rebuilt tables. -/
theorem filled_filled (t : Tables) (name : String) (p : Predicate) :
    filled (filled (vacated t name) .v4 (t.ensured name).1.id p) .v6 (t.ensured name).1.id p =
      t.rebuilt name p := by
  have v4 := sameRecords_vacated t name
  have v6 : t.SameRecords (filled (vacated t name) .v4 (t.ensured name).1.id p) :=
    ⟨rfl, rfl, rfl, rfl⟩
  rw [filled, v6.chosen, v6.coverOf, filled, v4.chosen, v4.coverOf]
  rfl

theorem build_ends (name : String) (p : Predicate) (sound : t.Sound)
    (calm : Session.Calm plan before ⟨t, saved⟩ s) :
    Ends (build plan mode name p) s
      (fun stats v => stats = statsOf t (t.ensured name).1.id p ∧
        Session.Calm plan before ⟨t.rebuilt name p, saved⟩ v)
      (Session.Hit plan before saved) := by
  have same := sameRecords_vacated t name
  have sound4 := vacated_sound sound name
  have vacant4 := vacant_vacated t name .v4
  have same4 : t.SameRecords (filled (vacated t name) .v4 (t.ensured name).1.id p) :=
    ⟨rfl, rfl, rfl, rfl⟩
  have sound6 : (filled (vacated t name) .v4 (t.ensured name).1.id p).Sound :=
    sound4.congr rfl rfl
  have vacant6 : (filled (vacated t name) .v4 (t.ensured name).1.id p).Vacant .v6
      (t.ensured name).1.id :=
    have vacant := vacant_vacated t name .v6
    ⟨vacant.listed, vacant.members, vacant.unions⟩
  refine Ends.bind_known (Session.exec_ends calm (Tables.ensureList_eq t name)) fun v calm => ?_
  refine Ends.bind_known (Session.exec_ends calm (Tables.clearList_eq _ .v4 _)) fun v calm => ?_
  refine Ends.bind_known (Session.exec_ends calm (Tables.clearList_eq _ .v6 _)) fun v calm => ?_
  refine Ends.bind_known (buildFamily_ends mode sound4 vacant4 calm) fun v calm => ?_
  refine Ends.bind_known (buildFamily_ends mode sound6 vacant6 calm) fun v calm => ?_
  rw [filled_filled] at calm
  rw [same.familyStats, same4.familyStats]
  exact Ends.pure ⟨rfl, calm⟩

theorem buildAndCommit_ends (name : String) (p : Predicate) (sound : t.Sound)
    (calm : Session.Calm plan before ⟨t, some t⟩ s) :
    Ends (buildAndCommit plan mode name p) s
      (fun stats v => stats = statsOf t (t.ensured name).1.id p ∧
        Session.Calm plan before ⟨t.rebuilt name p, none⟩ v)
      (Session.Hit plan before (some t)) := by
  refine Ends.bind_known (build_ends mode name p sound calm) fun v calm => ?_
  have committed : Database.commit.run ⟨t.rebuilt name p, some t⟩ =
      (.ok (), ⟨t.rebuilt name p, none⟩) := rfl
  refine Ends.bind_known (Session.call_ends calm committed) fun v calm => ?_
  exact Ends.pure ⟨rfl, calm⟩

theorem giveUp_rolls_back (works : ∀ n, plan .rollback n = none) (saved : s.db.saved = some t)
    (label : String) (e : Error) :
    (giveUp plan label e s).db = ⟨t, none⟩ ∧
      (giveUp plan label e s).calls = .rollback :: s.calls := by
  have noted : (s.noted ⟨.error, s!"{label}rebuild failed, rolling back: {e.text}"⟩).db.saved =
      some t := saved
  unfold giveUp
  dsimp only
  rw [Session.run_rollback works noted]
  exact ⟨rfl, rfl⟩

/-- What became of a list and of the database: either it was rebuilt and no call failed, or a call
failed and everything is as it was. -/
inductive Settled (plan : FaultPlan) (name : String) (p : Predicate) (t : Tables)
    (before : List Call) : Outcome × Session → Prop
  | committed {s : Session} (calm : Session.Calm plan before ⟨t.rebuilt name p, none⟩ s) :
      Settled plan name p t before (.committed (statsOf t (t.ensured name).1.id p), s)
  | rolledBack {s : Session} {e : Error} (since : before <:+ s.calls)
      (struck : plan.Struck before s.calls) (db : s.db = ⟨t, none⟩) :
      Settled plan name p t before (.rolledBack e, s)

/-- **One list** is rebuilt, or rolled back because a call was struck. -/
theorem list_settles (works : ∀ n, plan .rollback n = none) (sound : t.Sound)
    (closed : s.db = ⟨t, none⟩) (name : String) (p : Predicate) :
    Settled plan name p t s.calls (Rebuild.list plan mode name p s) := by
  have calm : Session.Calm plan s.calls ⟨t, none⟩ s := closed ▸ Session.calm_self s
  have noted : Session.Calm plan s.calls ⟨t, none⟩
      ((s.noted ⟨.info, s!"  building {name}"⟩).noted ⟨.debug, s!"  {name}: {p.text}"⟩) :=
    ⟨calm.since, calm.unstruck, calm.db⟩
  have began : Database.begin.run ⟨t, none⟩ = (.ok (), ⟨t, some t⟩) := rfl
  have begins : Ends (Session.begin plan) _ _ _ := Session.call_ends_or_unchanged noted began
  unfold Ends at begins
  unfold Rebuild.list
  dsimp only
  split <;> rename_i ran <;> rw [ran] at begins
  · obtain ⟨db, hit⟩ := begins
    exact .rolledBack hit.since hit.struck db
  · have builds := buildAndCommit_ends mode name p sound begins.2
    unfold Ends at builds
    split <;> rename_i ran <;> rw [ran] at builds
    · obtain ⟨rfl, calm⟩ := builds
      exact .committed ⟨calm.since, calm.unstruck, calm.db⟩
    · obtain ⟨db, calls⟩ := giveUp_rolls_back works builds.saved s!"  {name}: " _
      have grows := calls ▸ List.suffix_cons _ _
      exact .rolledBack (builds.since.trans grows) (builds.struck.mono grows) db

/-- A rebuild in which no call fails is committed. -/
theorem list_commits (mode : FetchMode) (sound : t.Sound) (closed : s.db = ⟨t, none⟩)
    (name : String) (p : Predicate) :
    (Rebuild.list .none mode name p s).1 = .committed (statsOf t (t.ensured name).1.id p) ∧
      (Rebuild.list .none mode name p s).2.db = ⟨t.rebuilt name p, none⟩ := by
  have settles : Settled .none name p t s.calls (Rebuild.list .none mode name p s) :=
    list_settles mode FaultPlan.none_works sound closed name p
  generalize Rebuild.list .none mode name p s = result at settles ⊢
  cases settles with
  | committed calm => exact ⟨rfl, calm.db⟩
  | rolledBack _ struck => exact absurd struck FaultPlan.none_not_struck

end Rebuild

end NetRegistry
