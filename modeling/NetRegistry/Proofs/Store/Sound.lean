/-
# Proofs.Store.Sound -- what holds of the stored rows

Whatever the operations do, a netblock row holds the first and last address and
the prefix length of one valid block (`NetblockRow.Stores`), and ids and list
names are keys (`Tables.Sound`).  So no scan of a reachable database meets a cell
that is no address, or an inverted range, and no two lists share their rows.

**Main theorem** `Database.Reachable.sound`: the invariant holds of the tables of
a reachable database and of those that a rollback goes back to.
-/
import NetRegistry.Proofs.Store.Cell
import NetRegistry.Proofs.Store.Reachable
import NetRegistry.Proofs.Store.Write

namespace NetRegistry

set_option autoImplicit false

/-! ## Row ids -/

theorem le_foldl_max (ids : List RowId) (start : RowId) :
    start ≤ ids.foldl max start ∧ ∀ id ∈ ids, id ≤ ids.foldl max start := by
  induction ids generalizing start with
  | nil => exact ⟨Int.le_refl _, fun id member => by cases member⟩
  | cons id rest ih =>
    obtain ⟨above, each⟩ := ih (max start id)
    refine ⟨Int.le_trans (Int.le_max_left _ _) above, fun other member => ?_⟩
    rcases List.mem_cons.mp member with rfl | later
    · exact Int.le_trans (Int.le_max_right _ _) above
    · exact each other later

theorem nextId_not_mem (ids : List RowId) : nextId ids ∉ ids := by
  intro member
  have below : ids.foldl max 0 + 1 ≤ ids.foldl max 0 := (le_foldl_max ids 0).2 _ member
  exact absurd below (Int.not_le.mpr (Int.lt_succ _))

theorem nodup_append_nextId {ids : List RowId} (distinct : ids.Nodup) :
    (ids ++ [nextId ids]).Nodup := by
  refine List.nodup_append.mpr ⟨distinct, List.pairwise_singleton _ _, ?_⟩
  rintro id member _ new rfl
  exact nextId_not_mem ids (List.mem_singleton.mp new ▸ member)

/-- A row is found by its key when keys are distinct. -/
theorem find?_key {α κ : Type} [BEq κ] [LawfulBEq κ] {key : α → κ} {rows : List α}
    (distinct : (rows.map key).Nodup) {row : α} (member : row ∈ rows) :
    rows.find? (key · == key row) = some row := by
  induction rows with
  | nil => cases member
  | cons other rest ih =>
    rw [List.map_cons, List.nodup_cons] at distinct
    rcases List.mem_cons.mp member with rfl | later
    · exact List.find?_cons_of_pos (beq_self_eq_true _)
    · have differs : (key other == key row) = false := by
        refine beq_false_of_ne fun same => distinct.1 ?_
        rw [same]
        exact List.mem_map_of_mem later
      rw [List.find?_cons, differs]
      exact ih distinct.2 later

/-! ## Netblock rows -/

/-- The row holds the addresses and the prefix length of a valid block. -/
structure NetblockRow.Stores {f : Family} (n : NetblockRow) (b : Block f) : Prop where
  valid : b.Valid
  first : n.first = b.base.toCell
  last : n.last = b.last.toCell
  prefixLen : n.prefixLen = b.prefixLen

theorem Importer.check_eq_ok {f : Family} {n : NetblockRecord f} (accepted : check n = .ok ()) :
    ∃ b : Block f, b.Valid ∧ b.range = n.range ∧ b.prefixLen = n.prefixLen := by
  refine Range.prefixLen?_eq_ok_iff.mp ?_
  unfold check at accepted
  cases h : n.range.prefixLen? with
  | error e =>
    rw [h] at accepted
    cases accepted
  | ok p =>
    rw [h] at accepted
    change (if p = n.prefixLen then Except.ok () else _) = _ at accepted
    split at accepted
    · rename_i same
      rw [same]
    · cases accepted

/-- A netblock is accepted when its range is one block and its prefix length is that of the block. -/
theorem Importer.check_eq_ok_iff {f : Family} {n : NetblockRecord f} :
    check n = .ok () ↔ ∃ b : Block f, b.Valid ∧ b.range = n.range ∧ b.prefixLen = n.prefixLen := by
  refine ⟨check_eq_ok, ?_⟩
  rintro ⟨b, valid, range, prefixLen⟩
  unfold check
  rw [← range, valid.prefixLen?_range, ← prefixLen]
  exact if_pos rfl

/-- Rows of netblocks that hold blocks and have ids of their own. -/
structure NetblocksSound (f : Family) (rows : List NetblockRow) : Prop where
  blocks : ∀ n ∈ rows, ∃ b : Block f, n.Stores b
  ids : (rows.map (·.id)).Nodup

namespace NetblocksSound

variable {f : Family} {rows : List NetblockRow}

theorem nil : NetblocksSound f [] := by
  constructor
  · intro n member
    cases member
  · exact List.nodup_nil

theorem filter (sound : NetblocksSound f rows) (keep : NetblockRow → Bool) :
    NetblocksSound f (rows.filter keep) :=
  ⟨fun n member => sound.blocks n (List.mem_filter.mp member).1,
    sound.ids.sublist (List.filter_sublist.map _)⟩

/-- Changing rows without their ids keeps them sound when each still holds a block. -/
theorem map (sound : NetblocksSound f rows) {change : NetblockRow → NetblockRow}
    (sameId : ∀ n, (change n).id = n.id)
    (blocks : ∀ n ∈ rows, ∃ b : Block f, (change n).Stores b) :
    NetblocksSound f (rows.map change) := by
  constructor
  · intro m member
    obtain ⟨n, stored, rfl⟩ := List.mem_map.mp member
    exact blocks n stored
  · have same : (rows.map change).map (·.id) = rows.map (·.id) := by
      rw [List.map_map]
      exact List.map_congr_left fun n _ => sameId n
    rw [same]
    exact sound.ids

/-- Links to organizations are free. -/
theorem map_org (sound : NetblocksSound f rows) {change : NetblockRow → NetblockRow}
    (onlyOrg : ∀ n, change n = { n with org := (change n).org }) :
    NetblocksSound f (rows.map change) := by
  refine sound.map (fun n => congrArg (·.id) (onlyOrg n)) fun n member => ?_
  obtain ⟨b, stores⟩ := sound.blocks n member
  refine ⟨b, stores.valid, ?_, ?_, ?_⟩
  · exact (congrArg (·.first) (onlyOrg n)).trans stores.first
  · exact (congrArg (·.last) (onlyOrg n)).trans stores.last
  · exact (congrArg (·.prefixLen) (onlyOrg n)).trans stores.prefixLen

theorem append (sound : NetblocksSound f rows) {n : NetblockRow} {b : Block f}
    (fresh : n.id = nextId (rows.map (·.id))) (stores : n.Stores b) :
    NetblocksSound f (rows ++ [n]) := by
  constructor
  · intro m member
    rcases List.mem_append.mp member with old | new
    · exact sound.blocks m old
    · rw [List.mem_singleton.mp new]
      exact ⟨b, stores⟩
  · rw [List.map_append, List.map_singleton, fresh]
    exact nodup_append_nextId sound.ids

end NetblocksSound

/-! ## Tables -/

/-- Netblock rows hold blocks, and ids and list names are keys. -/
structure Tables.Sound (t : Tables) : Prop where
  netblocks : ∀ f, NetblocksSound f (t.netblocks.get f)
  listIds : (t.lists.map (·.id)).Nodup
  listNames : (t.lists.map (·.name)).Nodup

namespace Tables.Sound

variable {t u : Tables} {f : Family}

theorem empty : Tables.empty.Sound := by
  refine ⟨fun f => ?_, List.nodup_nil, List.nodup_nil⟩
  cases f <;> exact .nil

/-- Only netblocks and lists matter. -/
theorem congr (sound : t.Sound) (netblocks : u.netblocks = t.netblocks)
    (lists : u.lists = t.lists) : u.Sound :=
  ⟨fun f => netblocks ▸ sound.netblocks f, lists ▸ sound.listIds, lists ▸ sound.listNames⟩

theorem set_netblocks (sound : t.Sound) {rows : List NetblockRow}
    (rowsSound : NetblocksSound f rows) (g : Family) :
    NetblocksSound g ((t.netblocks.set f rows).get g) := by
  by_cases same : g = f
  · subst same
    rw [PerFamily.get_set_self]
    exact rowsSound
  · rw [PerFamily.get_set_ne _ _ same]
    exact sound.netblocks g

theorem writeNetblock (sound : t.Sound) {registrar : RowId} {serial : Nat} {n : NetblockRecord f}
    {new : Bool} (accepted : Importer.check n = .ok ())
    (run : Write.writeNetblock registrar serial n t = .ok (new, u)) : u.Sound := by
  obtain ⟨b, valid, range, prefixLen⟩ := Importer.check_eq_ok accepted
  have first : b.base.toCell = n.range.first.toCell := by rw [← range]; rfl
  have last : b.last.toCell = n.range.last.toCell := by rw [← range]; rfl
  rcases Write.writeNetblock_cases run with ⟨-, rfl⟩ | ⟨-, -, rfl⟩
  · refine ⟨sound.set_netblocks ((sound.netblocks f).map ?_ ?_), sound.listIds, sound.listNames⟩
    · intro r
      split <;> rfl
    · intro r member
      split
      · -- The refreshed row keeps its addresses, which are those of the record.
        rename_i same
        simp only [Write.isNetblock, Bool.and_eq_true, beq_iff_eq] at same
        exact ⟨b, valid, same.1.2.trans first.symm, same.2.trans last.symm,
          congrArg Nat.cast prefixLen.symm⟩
      · exact (sound.netblocks f).blocks r member
  · exact ⟨sound.set_netblocks ((sound.netblocks f).append rfl
      ⟨valid, first.symm, last.symm, congrArg Nat.cast prefixLen.symm⟩),
      sound.listIds, sound.listNames⟩

theorem ensureList (sound : t.Sound) {name : String} {list : RowId}
    (run : Write.ensureList name t = .ok (list, u)) : u.Sound := by
  rcases Write.ensureList_cases run with ⟨-, rfl⟩ | ⟨missing, rfl, rfl⟩
  · exact sound
  · refine ⟨sound.netblocks, ?_, ?_⟩
    · rw [List.map_append, List.map_singleton]
      exact nodup_append_nextId sound.listIds
    · rw [List.map_append, List.map_singleton]
      refine List.nodup_append.mpr ⟨sound.listNames, List.pairwise_singleton _ _, ?_⟩
      rintro other member _ new rfl
      obtain ⟨row, stored, rfl⟩ := List.mem_map.mp member
      have absent := List.find?_eq_none.mp (Option.map_eq_none_iff.mp missing) row stored
      exact absent (beq_iff_eq.mpr (List.mem_singleton.mp new))

theorem sweepOrgs (sound : t.Sound) {registrar : RowId} {serial gone : Nat}
    (run : Write.sweepOrgs registrar serial t = .ok (gone, u)) : u.Sound := by
  obtain ⟨-, rfl⟩ := Prod.mk.inj (Except.ok.inj run)
  refine ⟨fun f => ?_, sound.listIds, sound.listNames⟩
  rw [PerFamily.get_map]
  refine (sound.netblocks f).map_org fun n => ?_
  split <;> rfl

theorem linkNetblocks (sound : t.Sound) {registrar : RowId}
    (run : Write.linkNetblocks f registrar t = .ok ((), u)) : u.Sound := by
  obtain ⟨-, rfl⟩ := Prod.mk.inj (Except.ok.inj run)
  refine ⟨sound.set_netblocks ((sound.netblocks f).map_org fun n => ?_), sound.listIds,
    sound.listNames⟩
  split <;> rfl

/-- Every statement of the operations keeps the tables sound. -/
theorem step (sound : t.Sound) (step : t.Step u) : u.Sound := by
  cases step with
  | writeNetblock accepted run => exact sound.writeNetblock accepted run
  | ensureList run => exact sound.ensureList run
  | sweepOrgs run => exact sound.sweepOrgs run
  | linkNetblocks run => exact sound.linkNetblocks run
  | sweepNetblocks run =>
    obtain ⟨-, rfl⟩ := Prod.mk.inj (Except.ok.inj run)
    exact ⟨sound.set_netblocks ((sound.netblocks _).filter _), sound.listIds, sound.listNames⟩
  | writeOrg run =>
    obtain ⟨_, rfl⟩ := Write.writeOrg_frame run
    exact sound.congr rfl rfl
  | populate run =>
    obtain ⟨_, rfl⟩ := Write.populate_frame run
    exact sound.congr rfl rfl
  | insertUnionBlock run =>
    obtain ⟨_, rfl⟩ := Write.insertUnionBlock_frame run
    exact sound.congr rfl rfl
  | insertCoverageBlock run =>
    obtain ⟨_, rfl⟩ := Write.insertCoverageBlock_frame run
    exact sound.congr rfl rfl
  | insertRegistrar _ run | recordImport run | clearList run | clearCoverage run =>
    obtain ⟨-, rfl⟩ := Prod.mk.inj (Except.ok.inj run)
    exact sound.congr rfl rfl

end Tables.Sound

/-- **Reachable databases are sound**, and stay so when they roll back. -/
theorem Database.Reachable.sound {db : Database} (reached : db.Reachable) :
    db.tables.Sound ∧ ∀ t ∈ db.saved, t.Sound :=
  reached.invariant .empty fun _ _ sound step => sound.step step

end NetRegistry
