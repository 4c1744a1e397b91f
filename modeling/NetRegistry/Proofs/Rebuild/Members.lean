/-
# Proofs.Rebuild.Members -- members are copies of stored netblocks

A member copies the addresses and the prefix length of a netblock when its list
is populated.  A netblock keeps both while it is stored, because an import finds
it again by its range, and deleting it deletes its memberships.  So the copies
stay right (`Tables.Backed`) although ids of deleted netblocks are given out
again.

* `Backed.step`: every statement of the operations keeps the copies right.
* `Backed.memberRows_eq`: a scan of the members of a list meets the cells of
  ranges that are not inverted, in ascending order.

**Main theorem** `Database.Reachable.backed`.
-/
import NetRegistry.Proofs.Rebuild.Rebuilt

namespace NetRegistry

set_option autoImplicit false

/-! ## Member rows -/

/-- Every member is a copy of a netblock, which is no more than once in a list. -/
structure MembersBacked (rows : List NetblockRow) (members : List MemberRow) : Prop where
  copies : ∀ m ∈ members, ∃ n ∈ rows, n.asMember m.list = m
  once : (members.map fun m => (m.list, m.netblock)).Nodup

namespace MembersBacked

variable {rows rows' : List NetblockRow} {members : List MemberRow}

theorem nil : MembersBacked rows [] := by
  refine ⟨?_, List.nodup_nil⟩
  intro m member
  cases member

theorem filter (backed : MembersBacked rows members) (keep : MemberRow → Bool) :
    MembersBacked rows (members.filter keep) :=
  ⟨fun m member => backed.copies m (List.mem_filter.mp member).1,
    backed.once.sublist (List.filter_sublist.map _)⟩

/-- More netblocks do no harm. -/
theorem mono (backed : MembersBacked rows members) (more : rows ⊆ rows') :
    MembersBacked rows' members := by
  refine ⟨fun m member => ?_, backed.once⟩
  obtain ⟨n, stored, copy⟩ := backed.copies m member
  exact ⟨n, more stored, copy⟩

/-- Netblocks may change in what members do not copy. -/
theorem map (backed : MembersBacked rows members) {change : NetblockRow → NetblockRow}
    (same : ∀ n ∈ rows, ∀ list, (change n).asMember list = n.asMember list) :
    MembersBacked (rows.map change) members := by
  refine ⟨fun m member => ?_, backed.once⟩
  obtain ⟨n, stored, copy⟩ := backed.copies m member
  exact ⟨change n, List.mem_map_of_mem stored, (same n stored m.list).trans copy⟩

/-- Netblocks may go when their members go too. -/
theorem sweep (backed : MembersBacked rows members) (stale : NetblockRow → Bool) :
    MembersBacked (rows.filter (!stale ·))
      (members.filter fun m => !((rows.filter stale).map (·.id)).contains m.netblock) := by
  refine ⟨fun m member => ?_, (backed.filter _).once⟩
  obtain ⟨old, spared⟩ := List.mem_filter.mp member
  obtain ⟨n, stored, copy⟩ := backed.copies m old
  refine ⟨n, List.mem_filter.mpr ⟨stored, ?_⟩, copy⟩
  rw [Bool.not_eq_true'] at spared ⊢
  refine Bool.eq_false_iff.mpr fun gone => Bool.eq_false_iff.mp spared ?_
  have id : n.id = m.netblock := congrArg (·.netblock) copy
  rw [List.contains_iff_mem, ← id]
  exact List.mem_map_of_mem (List.mem_filter.mpr ⟨stored, gone⟩)

/-- Netblocks may join a list in which they are not. -/
theorem join (backed : MembersBacked rows members) (ids : (rows.map (·.id)).Nodup)
    {chosen : List NetblockRow} (sub : chosen.Sublist rows) {list : RowId}
    (new : ∀ n ∈ chosen, ∀ m ∈ members, m.list = list → m.netblock ≠ n.id) :
    MembersBacked rows (members ++ chosen.map (·.asMember list)) := by
  constructor
  · intro m member
    rcases List.mem_append.mp member with old | added
    · exact backed.copies m old
    · obtain ⟨n, picked, rfl⟩ := List.mem_map.mp added
      exact ⟨n, sub.subset picked, rfl⟩
  · rw [List.map_append, List.map_map]
    refine List.nodup_append.mpr ⟨backed.once, ?_, ?_⟩
    · have keys : (chosen.map (·.id)).Nodup := ids.sublist (sub.map _)
      have paired : ((chosen.map (·.id)).map fun id => (list, id)).Nodup :=
        List.Pairwise.map _ (fun _ _ apart same => apart (congrArg (·.2) same)) keys
      rw [List.map_map] at paired
      exact paired
    · rintro key member _ added rfl
      obtain ⟨m, old, rfl⟩ := List.mem_map.mp member
      obtain ⟨n, picked, same⟩ := List.mem_map.mp added
      have sameList : list = m.list := congrArg (·.1) same
      have sameId : n.id = m.netblock := congrArg (·.2) same
      exact new n picked m old sameList.symm sameId.symm

end MembersBacked

/-! ## Tables -/

/-- The members of both families are copies of stored netblocks. -/
def Tables.Backed (t : Tables) : Prop := ∀ f, MembersBacked (t.netblocks.get f) (t.members.get f)

namespace Tables.Backed

variable {t u : Tables} {f : Family}

theorem empty : Tables.empty.Backed := by
  intro f
  cases f <;> exact .nil

/-- Only netblocks and members matter. -/
theorem congr (backed : t.Backed) (netblocks : u.netblocks = t.netblocks)
    (members : u.members = t.members) : u.Backed := by
  intro f
  rw [netblocks, members]
  exact backed f

/-- A statement on the rows of one family. -/
theorem of_family (backed : t.Backed)
    (netblocks : ∀ g, g ≠ f → u.netblocks.get g = t.netblocks.get g)
    (members : ∀ g, g ≠ f → u.members.get g = t.members.get g)
    (changed : MembersBacked (u.netblocks.get f) (u.members.get f)) : u.Backed := by
  intro g
  by_cases same : g = f
  · subst same
    exact changed
  · rw [netblocks g same, members g same]
    exact backed g

theorem set_netblocks (backed : t.Backed) {rows : List NetblockRow}
    (changed : MembersBacked rows (t.members.get f)) :
    { t with netblocks := t.netblocks.set f rows }.Backed := by
  refine backed.of_family (f := f) (fun g other => PerFamily.get_set_ne _ _ other)
    (fun _ _ => rfl) ?_
  rw [PerFamily.get_set_self]
  exact changed

theorem set_members (backed : t.Backed) {members : List MemberRow}
    (changed : MembersBacked (t.netblocks.get f) members) :
    { t with members := t.members.set f members }.Backed := by
  refine backed.of_family (f := f) (fun _ _ => rfl)
    (fun g other => PerFamily.get_set_ne _ _ other) ?_
  rw [PerFamily.get_set_self]
  exact changed

theorem writeNetblock (backed : t.Backed) (sound : t.Sound) {registrar : RowId} {serial : Nat}
    {n : NetblockRecord f} {new : Bool} (accepted : Importer.check n = .ok ())
    (run : Write.writeNetblock registrar serial n t = .ok (new, u)) : u.Backed := by
  rcases Write.writeNetblock_cases run with ⟨-, rfl⟩ | ⟨-, -, rfl⟩
  · refine backed.set_netblocks ((backed f).map fun r stored list => ?_)
    split
    · -- The refreshed row has the prefix length of the record, which its own range decides.
      rename_i same
      simp only [Write.isNetblock, Bool.and_eq_true, beq_iff_eq] at same
      obtain ⟨b, stores⟩ := (sound.netblocks f).blocks r stored
      have range : b.range = n.range := by
        have first : b.base = n.range.first := toCell_inj.mp (stores.first.symm.trans same.1.2)
        have last : b.last = n.range.last := toCell_inj.mp (stores.last.symm.trans same.2)
        rw [Block.range, first, last]
      have own := Range.prefixLen?_eq_ok_iff.mpr ⟨b, stores.valid, range, rfl⟩
      have told := Range.prefixLen?_eq_ok_iff.mpr (Importer.check_eq_ok accepted)
      rw [own] at told
      rw [NetblockRow.asMember, NetblockRow.asMember, stores.prefixLen, Except.ok.inj told]
      rfl
    · rfl
  · exact backed.set_netblocks ((backed f).mono (List.subset_append_left _ _))

theorem sweepNetblocks (backed : t.Backed) {registrar : RowId} {serial gone : Nat}
    (run : Write.sweepNetblocks f registrar serial t = .ok (gone, u)) : u.Backed := by
  obtain ⟨-, rfl⟩ := Prod.mk.inj (Except.ok.inj run)
  refine backed.of_family (f := f) (fun g other => PerFamily.get_set_ne _ _ other)
    (fun g other => PerFamily.get_set_ne _ _ other) ?_
  rw [PerFamily.get_set_self, PerFamily.get_set_self]
  exact (backed f).sweep _

theorem sweepOrgs (backed : t.Backed) {registrar : RowId} {serial gone : Nat}
    (run : Write.sweepOrgs registrar serial t = .ok (gone, u)) : u.Backed := by
  obtain ⟨-, rfl⟩ := Prod.mk.inj (Except.ok.inj run)
  intro f
  rw [PerFamily.get_map]
  refine (backed f).map fun n _ list => ?_
  split <;> rfl

theorem linkNetblocks (backed : t.Backed) {registrar : RowId}
    (run : Write.linkNetblocks f registrar t = .ok ((), u)) : u.Backed := by
  obtain ⟨-, rfl⟩ := Prod.mk.inj (Except.ok.inj run)
  refine backed.set_netblocks ((backed f).map fun n _ list => ?_)
  split <;> rfl

theorem populate (backed : t.Backed) (sound : t.Sound) {list : RowId} {p : Predicate}
    {added : Nat} (run : Write.populate f list p t = .ok (added, u)) : u.Backed := by
  obtain ⟨free, rfl⟩ := Write.populate_cases run
  apply backed.set_members
  refine (backed f).join (sound.netblocks f).ids List.filter_sublist ?_
  intro n picked m old sameList
  exact free n picked m (List.mem_filter.mpr ⟨old, beq_iff_eq.mpr sameList⟩)

/-- Every statement of the operations keeps the copies right. -/
theorem step (backed : t.Backed) (sound : t.Sound) (step : t.Step u) : u.Backed := by
  cases step with
  | writeNetblock accepted run => exact backed.writeNetblock sound accepted run
  | sweepNetblocks run => exact backed.sweepNetblocks run
  | sweepOrgs run => exact backed.sweepOrgs run
  | linkNetblocks run => exact backed.linkNetblocks run
  | populate run => exact backed.populate sound run
  | clearList run =>
    obtain ⟨-, rfl⟩ := Prod.mk.inj (Except.ok.inj run)
    exact (backed.set_members ((backed _).filter _)).congr rfl rfl
  | writeOrg run =>
    obtain ⟨_, rfl⟩ := Write.writeOrg_frame run
    exact backed.congr rfl rfl
  | ensureList run =>
    obtain ⟨_, rfl⟩ := Write.ensureList_frame run
    exact backed.congr rfl rfl
  | insertUnionBlock run =>
    obtain ⟨_, rfl⟩ := Write.insertUnionBlock_frame run
    exact backed.congr rfl rfl
  | insertCoverageBlock run =>
    obtain ⟨_, rfl⟩ := Write.insertCoverageBlock_frame run
    exact backed.congr rfl rfl
  | insertRegistrar _ run | recordImport run | clearCoverage run =>
    obtain ⟨-, rfl⟩ := Prod.mk.inj (Except.ok.inj run)
    exact backed.congr rfl rfl

end Tables.Backed

/-- **Members of reachable databases are copies of stored netblocks**, also after a rollback. -/
theorem Database.Reachable.backed {db : Database} (reached : db.Reachable) :
    db.tables.Backed ∧ ∀ t ∈ db.saved, t.Backed := by
  have both := reached.invariant (P := fun t => t.Sound ∧ t.Backed) ⟨.empty, .empty⟩
    fun _ _ holds step => ⟨holds.1.step step, holds.2.step holds.1 step⟩
  exact ⟨both.1.2, fun t open_ => (both.2 t open_).2⟩

/-! ## Scans -/

/-- The range that a member row holds, if its cells are addresses. -/
def MemberRow.range? (f : Family) (m : MemberRow) : Option (Range f) :=
  (Read.bounds f (m.first, m.last)).toOption

namespace Tables

variable {t : Tables} {f : Family} {list : RowId}

/-- The ranges of the members of a list in scan order. -/
def memberRanges (t : Tables) (f : Family) (list : RowId) : List (Range f) :=
  ((t.membersOf f list).filterMap (·.range? f)).mergeSort Range.le

theorem Backed.range?_eq_some (backed : t.Backed) (sound : t.Sound) {m : MemberRow}
    (member : m ∈ t.membersOf f list) :
    ∃ r : Range f, m.range? f = some r ∧ (m.first, m.last) = r.toRow ∧ r.first ≤ r.last := by
  obtain ⟨n, stored, copy⟩ := (backed f).copies m (List.mem_filter.mp member).1
  rw [← copy]
  exact (sound.netblocks f).range?_eq_some stored

theorem Backed.memberRows_eq (backed : t.Backed) (sound : t.Sound) (f : Family) (list : RowId) :
    t.memberRows f list = (t.memberRanges f list).map Range.toRow :=
  mergeSort_map_view fun _ => backed.range?_eq_some sound

theorem Backed.memberRanges_ordered (backed : t.Backed) (sound : t.Sound) :
    ∀ r ∈ t.memberRanges f list, r.first ≤ r.last :=
  mergeSort_decoded_ordered fun _ => backed.range?_eq_some sound

theorem memberRanges_ascending (t : Tables) (f : Family) (list : RowId) :
    (t.memberRanges f list).Pairwise fun r s => r.le s = true :=
  List.pairwise_mergeSort Range.le_trans Range.le_total _

end Tables

end NetRegistry
