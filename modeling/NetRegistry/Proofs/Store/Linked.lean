/-
# Proofs.Store.Linked -- references between rows

Netblocks refer to a registrar and, when they are linked, to an organization.
Whatever the operations do, the registrar is there, and the organization is there
and belongs to the same registrar (`NetblocksLinked`): registrars are never
deleted, and deleting organizations unlinks their netblocks in both families,
before an id is given out again.  No registrar has two netblocks of one range.

**Main theorem** `Database.Reachable.linked`: this holds of the tables of a
reachable database and of those that a rollback goes back to.
-/
import NetRegistry.Proofs.Store.Sound

namespace NetRegistry

set_option autoImplicit false

/-- Changes that a view does not see leave what it sees of the rows. -/
theorem map_map_of_same {α β : Type} (view : α → β) {change : α → α} (rows : List α)
    (same : ∀ r, view (change r) = view r) : (rows.map change).map view = rows.map view := by
  rw [List.map_map]
  exact List.map_congr_left fun r _ => same r

/-- Rows with distinct keys are the same when their keys are. -/
theorem eq_of_key {α κ : Type} [BEq κ] [LawfulBEq κ] {key : α → κ} {rows : List α}
    (distinct : (rows.map key).Nodup) {r s : α} (first : r ∈ rows) (second : s ∈ rows)
    (same : key r = key s) : r = s := by
  have found := find?_key distinct first
  rw [same, find?_key distinct second] at found
  exact (Option.some.inj found).symm

/-- The organization by its id and its registrar, as links know it. -/
def OrgRow.owned (o : OrgRow) : RowId × RowId := (o.id, o.registrar)

/-- The registrar of a netblock with its addresses as stored. -/
def NetblockRow.place (n : NetblockRow) : RowId × Cell × Cell := (n.registrar, n.first, n.last)

/-! ## Netblock rows -/

/-- Netblocks that refer to registrars and to organizations of their registrars, each place being
taken once. -/
structure NetblocksLinked (registrars : List RowId) (orgs : List (RowId × RowId))
    (rows : List NetblockRow) : Prop where
  registered : ∀ n ∈ rows, n.registrar ∈ registrars
  links : ∀ n ∈ rows, ∀ id ∈ n.org, (id, n.registrar) ∈ orgs
  places : (rows.map NetblockRow.place).Nodup

namespace NetblocksLinked

variable {registrars registrars' : List RowId} {orgs orgs' : List (RowId × RowId)}
  {rows : List NetblockRow}

theorem nil : NetblocksLinked registrars orgs [] := by
  refine ⟨?_, ?_, List.nodup_nil⟩
  · intro n member
    cases member
  · intro n member
    cases member

/-- More registrars and organizations do no harm. -/
theorem mono (linked : NetblocksLinked registrars orgs rows) (known : registrars ⊆ registrars')
    (listed : orgs ⊆ orgs') : NetblocksLinked registrars' orgs' rows :=
  ⟨fun n member => known (linked.registered n member),
    fun n member id link => listed (linked.links n member id link), linked.places⟩

theorem filter (linked : NetblocksLinked registrars orgs rows) (keep : NetblockRow → Bool) :
    NetblocksLinked registrars orgs (rows.filter keep) :=
  ⟨fun n member => linked.registered n (List.mem_filter.mp member).1,
    fun n member => linked.links n (List.mem_filter.mp member).1,
    linked.places.sublist (List.filter_sublist.map _)⟩

/-- Rows may change in place, as long as their links stay right. -/
theorem map (linked : NetblocksLinked registrars orgs rows) {change : NetblockRow → NetblockRow}
    (place : ∀ n, (change n).place = n.place)
    (links : ∀ n ∈ rows, ∀ id ∈ (change n).org, (id, n.registrar) ∈ orgs') :
    NetblocksLinked registrars orgs' (rows.map change) := by
  have registrar : ∀ n, (change n).registrar = n.registrar := fun n => congrArg (·.1) (place n)
  refine ⟨?_, ?_, ?_⟩
  · intro m member
    obtain ⟨n, stored, rfl⟩ := List.mem_map.mp member
    rw [registrar]
    exact linked.registered n stored
  · intro m member
    obtain ⟨n, stored, rfl⟩ := List.mem_map.mp member
    rw [registrar]
    exact links n stored
  · rw [map_map_of_same NetblockRow.place rows place]
    exact linked.places

/-- An unlinked row may be added at a place that is free. -/
theorem append (linked : NetblocksLinked registrars orgs rows) {n : NetblockRow}
    (known : n.registrar ∈ registrars) (unlinked : n.org = none)
    (free : n.place ∉ rows.map NetblockRow.place) :
    NetblocksLinked registrars orgs (rows ++ [n]) := by
  refine ⟨?_, ?_, ?_⟩
  · intro m member
    rcases List.mem_append.mp member with old | new
    · exact linked.registered m old
    · rw [List.mem_singleton.mp new]
      exact known
  · intro m member id link
    rcases List.mem_append.mp member with old | new
    · exact linked.links m old id link
    · rw [List.mem_singleton.mp new, unlinked] at link
      cases link
  · rw [List.map_append, List.map_singleton]
    refine List.nodup_append.mpr ⟨linked.places, List.pairwise_singleton _ _, ?_⟩
    rintro place member _ new rfl
    exact free (List.mem_singleton.mp new ▸ member)

end NetblocksLinked

/-! ## Tables -/

/-- References between rows are kept, and organizations have ids of their own. -/
structure Tables.Linked (t : Tables) : Prop where
  orgIds : (t.orgs.map (·.id)).Nodup
  netblocks : ∀ f, NetblocksLinked (t.registrars.map (·.id)) (t.orgs.map OrgRow.owned)
    (t.netblocks.get f)

namespace Tables

variable {t u : Tables} {f : Family}

theorem registrar?_isSome_iff {id : RowId} :
    (t.registrar? id).isSome = true ↔ id ∈ t.registrars.map (·.id) := by
  rw [registrar?, List.find?_isSome, List.mem_map]
  simp only [beq_iff_eq]

namespace Linked

theorem empty : Tables.empty.Linked := by
  refine ⟨List.nodup_nil, fun f => ?_⟩
  cases f <;> exact .nil

/-- Only registrars, organizations and netblocks matter. -/
theorem congr (linked : t.Linked) (registrars : u.registrars = t.registrars)
    (orgs : u.orgs = t.orgs) (netblocks : u.netblocks = t.netblocks) : u.Linked := by
  refine ⟨orgs ▸ linked.orgIds, fun f => ?_⟩
  rw [registrars, orgs, netblocks]
  exact linked.netblocks f

theorem set_netblocks (linked : t.Linked) {rows : List NetblockRow}
    (rowsLinked : NetblocksLinked (t.registrars.map (·.id)) (t.orgs.map OrgRow.owned) rows) :
    { t with netblocks := t.netblocks.set f rows }.Linked := by
  refine ⟨linked.orgIds, fun g => ?_⟩
  dsimp only
  by_cases same : g = f
  · subst same
    rw [PerFamily.get_set_self]
    exact rowsLinked
  · rw [PerFamily.get_set_ne _ _ same]
    exact linked.netblocks g

theorem insertRegistrar (linked : t.Linked) {name : String} {row : RegistrarRow}
    (run : Write.insertRegistrar name t = .ok (row, u)) : u.Linked := by
  obtain ⟨-, rfl⟩ := Prod.mk.inj (Except.ok.inj run)
  refine ⟨linked.orgIds, fun f => (linked.netblocks f).mono ?_ fun _ => id⟩
  rw [List.map_append]
  exact List.subset_append_left _ _

theorem writeOrg (linked : t.Linked) {registrar : RowId} {serial : Nat} {o : OrgRecord}
    {new : Bool} (run : Write.writeOrg registrar serial o t = .ok (new, u)) : u.Linked := by
  rcases Write.writeOrg_cases run with ⟨-, rfl⟩ | ⟨-, -, rfl⟩
  · refine ⟨?_, fun f => ?_⟩
    · dsimp only
      rw [map_map_of_same (fun o : OrgRow => o.id)]
      · exact linked.orgIds
      · intro r
        split <;> rfl
    · dsimp only
      rw [map_map_of_same OrgRow.owned]
      · exact linked.netblocks f
      · intro r
        split <;> rfl
  · refine ⟨?_, fun f => (linked.netblocks f).mono (fun _ => id) ?_⟩
    · dsimp only
      rw [List.map_append, List.map_singleton]
      exact nodup_append_nextId linked.orgIds
    · rw [List.map_append]
      exact List.subset_append_left _ _

theorem writeNetblock (linked : t.Linked) {registrar : RowId} {serial : Nat}
    {n : NetblockRecord f} {new : Bool}
    (run : Write.writeNetblock registrar serial n t = .ok (new, u)) : u.Linked := by
  rcases Write.writeNetblock_cases run with ⟨-, rfl⟩ | ⟨absent, known, rfl⟩
  · refine linked.set_netblocks ((linked.netblocks f).map ?_ ?_)
    · intro r
      split <;> rfl
    · intro r member id link
      refine (linked.netblocks f).links r member id ?_
      split at link <;> exact link
  · refine linked.set_netblocks ((linked.netblocks f).append ?_ rfl ?_)
    · exact registrar?_isSome_iff.mp known
    · intro taken
      obtain ⟨r, member, place⟩ := List.mem_map.mp taken
      refine Bool.eq_false_iff.mp absent (List.any_eq_true.mpr ⟨r, member, ?_⟩)
      simp only [NetblockRow.place, Prod.mk.injEq] at place
      simp [Write.isNetblock, place]

/-- Netblocks are unlinked from the organizations that go, so the others are still there. -/
theorem sweepOrgs (linked : t.Linked) {registrar : RowId} {serial gone : Nat}
    (run : Write.sweepOrgs registrar serial t = .ok (gone, u)) : u.Linked := by
  obtain ⟨-, rfl⟩ := Prod.mk.inj (Except.ok.inj run)
  refine ⟨linked.orgIds.sublist (List.filter_sublist.map _), fun f => ?_⟩
  dsimp only
  rw [PerFamily.get_map]
  refine (linked.netblocks f).map ?_ ?_
  · intro n
    split <;> rfl
  · intro n member id link
    split at link
    · cases link
    · rename_i spared
      obtain ⟨o, stored, owned⟩ := List.mem_map.mp ((linked.netblocks f).links n member id link)
      refine List.mem_map.mpr ⟨o, List.mem_filter.mpr ⟨stored, ?_⟩, owned⟩
      rw [Bool.not_eq_true']
      refine Bool.eq_false_iff.mpr fun stale => spared ?_
      rw [Option.mem_def.mp link, Option.any_some, List.contains_iff_mem]
      exact List.mem_map.mpr ⟨o, List.mem_filter.mpr ⟨stored, stale⟩, congrArg (·.1) owned⟩

theorem linkNetblocks (linked : t.Linked) {registrar : RowId}
    (run : Write.linkNetblocks f registrar t = .ok ((), u)) : u.Linked := by
  obtain ⟨-, rfl⟩ := Prod.mk.inj (Except.ok.inj run)
  refine linked.set_netblocks ((linked.netblocks f).map ?_ ?_)
  · intro n
    split <;> rfl
  · intro n member id link
    split at link
    · rename_i own
      obtain ⟨handle, -, found⟩ := Option.bind_eq_some_iff.mp link
      obtain ⟨o, named, rfl⟩ := Option.map_eq_some_iff.mp found
      have matched := List.find?_some named
      simp only [Bool.and_eq_true, beq_iff_eq] at matched own
      refine List.mem_map.mpr ⟨o, List.mem_of_find?_eq_some named, ?_⟩
      rw [OrgRow.owned, matched.1, own]
    · exact (linked.netblocks f).links n member id link

theorem recordImport (linked : t.Linked) {registrar : RowId} {serial now : Nat}
    (run : Write.recordImport registrar serial now t = .ok ((), u)) : u.Linked := by
  obtain ⟨-, rfl⟩ := Prod.mk.inj (Except.ok.inj run)
  refine ⟨linked.orgIds, fun f => ?_⟩
  dsimp only
  rw [map_map_of_same fun r : RegistrarRow => r.id]
  · exact linked.netblocks f
  · intro r
    split <;> rfl

/-- Every statement of the operations keeps the references. -/
theorem step (linked : t.Linked) (step : t.Step u) : u.Linked := by
  cases step with
  | insertRegistrar _ run => exact linked.insertRegistrar run
  | writeOrg run => exact linked.writeOrg run
  | writeNetblock _ run => exact linked.writeNetblock run
  | sweepOrgs run => exact linked.sweepOrgs run
  | linkNetblocks run => exact linked.linkNetblocks run
  | recordImport run => exact linked.recordImport run
  | sweepNetblocks run =>
    obtain ⟨-, rfl⟩ := Prod.mk.inj (Except.ok.inj run)
    exact (linked.set_netblocks ((linked.netblocks _).filter _)).congr rfl rfl rfl
  | ensureList run =>
    obtain ⟨_, rfl⟩ := Write.ensureList_frame run
    exact linked.congr rfl rfl rfl
  | populate run =>
    obtain ⟨_, rfl⟩ := Write.populate_frame run
    exact linked.congr rfl rfl rfl
  | insertUnionBlock run =>
    obtain ⟨_, rfl⟩ := Write.insertUnionBlock_frame run
    exact linked.congr rfl rfl rfl
  | insertCoverageBlock run =>
    obtain ⟨_, rfl⟩ := Write.insertCoverageBlock_frame run
    exact linked.congr rfl rfl rfl
  | clearList run | clearCoverage run =>
    obtain ⟨-, rfl⟩ := Prod.mk.inj (Except.ok.inj run)
    exact linked.congr rfl rfl rfl

end Linked

/-- No statement of the operations takes a registrar away. -/
theorem Step.registrarIds (step : t.Step u) :
    t.registrars.map (·.id) ⊆ u.registrars.map (·.id) := by
  cases step with
  | insertRegistrar _ run =>
    obtain ⟨-, rfl⟩ := Prod.mk.inj (Except.ok.inj run)
    dsimp only
    rw [List.map_append]
    exact List.subset_append_left _ _
  | writeOrg run =>
    obtain ⟨_, rfl⟩ := Write.writeOrg_frame run
    exact List.Subset.refl _
  | writeNetblock _ run =>
    obtain ⟨_, rfl⟩ := Write.writeNetblock_frame run
    exact List.Subset.refl _
  | recordImport run =>
    obtain ⟨-, rfl⟩ := Prod.mk.inj (Except.ok.inj run)
    dsimp only
    rw [map_map_of_same fun r : RegistrarRow => r.id]
    · exact List.Subset.refl _
    · intro r
      split <;> rfl
  | ensureList run =>
    obtain ⟨_, rfl⟩ := Write.ensureList_frame run
    exact List.Subset.refl _
  | populate run =>
    obtain ⟨_, rfl⟩ := Write.populate_frame run
    exact List.Subset.refl _
  | insertUnionBlock run =>
    obtain ⟨_, rfl⟩ := Write.insertUnionBlock_frame run
    exact List.Subset.refl _
  | insertCoverageBlock run =>
    obtain ⟨_, rfl⟩ := Write.insertCoverageBlock_frame run
    exact List.Subset.refl _
  | sweepNetblocks run | sweepOrgs run | linkNetblocks run | clearList run | clearCoverage run =>
    obtain ⟨-, rfl⟩ := Prod.mk.inj (Except.ok.inj run)
    exact List.Subset.refl _

end Tables

/-- A registrar that is there stays there. -/
theorem Database.stable_registrar (id : RowId) :
    Stable fun db => (db.tables.registrar? id).isSome = true := by
  intro t u saved step known
  rw [Tables.registrar?_isSome_iff] at known ⊢
  exact step.registrarIds known

/-- **Reachable databases keep their references**, and still do when they roll back. -/
theorem Database.Reachable.linked {db : Database} (reached : db.Reachable) :
    db.tables.Linked ∧ ∀ t ∈ db.saved, t.Linked :=
  reached.invariant .empty fun _ _ linked step => linked.step step

end NetRegistry
