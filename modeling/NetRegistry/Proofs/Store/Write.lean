/-
# Proofs.Store.Write -- what a statement that succeeded has done

One inversion for each statement that has more than one way to go: which way it
went, under which condition, and what the tables are then.  A `_frame` lemma says
no more than which table a statement can have changed.  Whatever is proved of
statements that ran follows from these, without opening their definitions.
-/
import NetRegistry.Store.Write

namespace NetRegistry

set_option autoImplicit false

namespace Write

variable {t u : Tables} {f : Family} {registrar list : RowId} {serial : Nat} {new : Bool}

/-! ## Records of a registrar -/

/-- The row of an organization of a registrar. -/
def isOrg (registrar : RowId) (o : OrgRecord) (r : OrgRow) : Bool :=
  r.registrar == registrar && r.handle == o.handle

/-- The row of a netblock of a registrar. -/
def isNetblock (registrar : RowId) (n : NetblockRecord f) (r : NetblockRow) : Bool :=
  r.registrar == registrar && r.first == n.range.first.toCell && r.last == n.range.last.toCell

/-- The row of an organization as an import leaves it when it was there. -/
def refreshOrg (serial : Nat) (o : OrgRecord) (r : OrgRow) : OrgRow :=
  { r with serial := serial, name := o.name, descr := o.descr }

/-- The row of a netblock as an import leaves it when it was there. -/
def refreshNetblock (serial : Nat) (n : NetblockRecord f) (r : NetblockRow) : NetblockRow :=
  { r with
    serial := serial, reference := n.reference, prefixLen := n.prefixLen
    name := n.name, descr := n.descr }

theorem writeOrg_cases {o : OrgRecord} (run : writeOrg registrar serial o t = .ok (new, u)) :
    (t.orgs.any (isOrg registrar o) = true ∧
      u = { t with
        orgs := t.orgs.map fun r => if isOrg registrar o r then refreshOrg serial o r else r }) ∨
    (t.orgs.any (isOrg registrar o) = false ∧ (t.registrar? registrar).isSome = true ∧
      u = { t with
        orgs := t.orgs ++
          [⟨nextId (t.orgs.map (·.id)), registrar, serial, o.handle, o.name, o.descr⟩] }) := by
  unfold writeOrg at run
  dsimp only at run
  split at run
  · rename_i there
    obtain ⟨-, rfl⟩ := Prod.mk.inj (Except.ok.inj run)
    exact Or.inl ⟨there, rfl⟩
  · rename_i missing
    split at run
    · cases run
    · rename_i unknown
      obtain ⟨-, rfl⟩ := Prod.mk.inj (Except.ok.inj run)
      rw [Bool.not_eq_true, Option.isNone_eq_false_iff] at unknown
      exact Or.inr ⟨Bool.eq_false_iff.mpr missing, unknown, rfl⟩

theorem writeNetblock_cases {n : NetblockRecord f}
    (run : writeNetblock registrar serial n t = .ok (new, u)) :
    ((t.netblocks.get f).any (isNetblock registrar n) = true ∧
      u = { t with
        netblocks := t.netblocks.set f ((t.netblocks.get f).map fun r =>
          if isNetblock registrar n r then refreshNetblock serial n r else r) }) ∨
    ((t.netblocks.get f).any (isNetblock registrar n) = false ∧
      (t.registrar? registrar).isSome = true ∧
      u = { t with
        netblocks := t.netblocks.set f (t.netblocks.get f ++
          [⟨nextId ((t.netblocks.get f).map (·.id)), registrar, serial, n.reference, none,
            n.range.first.toCell, n.range.last.toCell, n.prefixLen, n.name, n.descr⟩]) }) := by
  unfold writeNetblock at run
  dsimp only at run
  split at run
  · rename_i there
    obtain ⟨-, rfl⟩ := Prod.mk.inj (Except.ok.inj run)
    exact Or.inl ⟨there, rfl⟩
  · rename_i missing
    split at run
    · cases run
    · rename_i unknown
      obtain ⟨-, rfl⟩ := Prod.mk.inj (Except.ok.inj run)
      rw [Bool.not_eq_true, Option.isNone_eq_false_iff] at unknown
      exact Or.inr ⟨Bool.eq_false_iff.mpr missing, unknown, rfl⟩

theorem writeOrg_frame {o : OrgRecord} (run : writeOrg registrar serial o t = .ok (new, u)) :
    ∃ orgs, u = { t with orgs := orgs } := by
  rcases writeOrg_cases run with ⟨-, rfl⟩ | ⟨-, -, rfl⟩ <;> exact ⟨_, rfl⟩

theorem writeNetblock_frame {n : NetblockRecord f}
    (run : writeNetblock registrar serial n t = .ok (new, u)) :
    ∃ rows, u = { t with netblocks := t.netblocks.set f rows } := by
  rcases writeNetblock_cases run with ⟨-, rfl⟩ | ⟨-, -, rfl⟩ <;> exact ⟨_, rfl⟩

/-- An organization is said to be new when a row was added for it. -/
theorem writeOrg_length {o : OrgRecord} (run : writeOrg registrar serial o t = .ok (new, u)) :
    u.orgs.length = t.orgs.length + new.toNat := by
  unfold writeOrg at run
  dsimp only at run
  split at run
  · obtain ⟨rfl, rfl⟩ := Prod.mk.inj (Except.ok.inj run)
    exact List.length_map _
  · split at run <;> cases run
    exact List.length_append

theorem writeNetblock_length {n : NetblockRecord f}
    (run : writeNetblock registrar serial n t = .ok (new, u)) :
    (u.netblocks.get f).length = (t.netblocks.get f).length + new.toNat := by
  unfold writeNetblock at run
  dsimp only at run
  split at run
  · obtain ⟨rfl, rfl⟩ := Prod.mk.inj (Except.ok.inj run)
    rw [PerFamily.get_set_self]
    exact List.length_map _
  · split at run <;> cases run
    rw [PerFamily.get_set_self]
    exact List.length_append

/-- Records of a registrar that is there can be written. -/
theorem writeOrg_ok (known : (t.registrar? registrar).isSome = true)
    (serial : Nat) (o : OrgRecord) :
    ∃ new u, writeOrg registrar serial o t = .ok (new, u) := by
  have there := Option.isNone_eq_false_iff.mpr known
  unfold writeOrg
  dsimp only
  rw [there]
  split
  · exact ⟨_, _, rfl⟩
  · exact ⟨_, _, rfl⟩

theorem writeNetblock_ok (known : (t.registrar? registrar).isSome = true)
    (serial : Nat) (n : NetblockRecord f) :
    ∃ new u, writeNetblock registrar serial n t = .ok (new, u) := by
  have there := Option.isNone_eq_false_iff.mpr known
  unfold writeNetblock
  dsimp only
  rw [there]
  split
  · exact ⟨_, _, rfl⟩
  · exact ⟨_, _, rfl⟩

/-! ## Lists and coverage -/

theorem ensureList_cases {name : String} (run : ensureList name t = .ok (list, u)) :
    (t.listNamed? name = some list ∧ u = t) ∨
    (t.listNamed? name = none ∧ list = nextId (t.lists.map (·.id)) ∧
      u = { t with lists := t.lists ++ [⟨list, name⟩] }) := by
  unfold ensureList at run
  split at run <;> cases run
  · rename_i found
    exact Or.inl ⟨found, rfl⟩
  · rename_i missing
    exact Or.inr ⟨missing, rfl, rfl⟩

theorem ensureList_frame {name : String} (run : ensureList name t = .ok (list, u)) :
    ∃ lists, u = { t with lists := lists } := by
  rcases ensureList_cases run with ⟨-, rfl⟩ | ⟨-, -, rfl⟩
  · exact ⟨u.lists, rfl⟩
  · exact ⟨_, rfl⟩

/-- The netblocks that a population adds were not in the list. -/
theorem populate_cases {p : Predicate} {added : Nat}
    (run : populate f list p t = .ok (added, u)) :
    (∀ n ∈ (t.netblocks.get f).filter (selects t p), ∀ m ∈ t.membersOf f list,
      m.netblock ≠ n.id) ∧
    u = { t with
      members := t.members.set f (t.members.get f ++
        ((t.netblocks.get f).filter (selects t p)).map fun n =>
          ⟨list, n.id, n.first, n.last, n.prefixLen⟩) } := by
  unfold populate at run
  dsimp only at run
  split at run
  · cases run
  · rename_i free
    split at run <;> cases run
    refine ⟨fun n chosen m present same => free ?_, rfl⟩
    exact List.any_eq_true.mpr
      ⟨n, chosen, List.any_eq_true.mpr ⟨m, present, beq_iff_eq.mpr same⟩⟩

theorem populate_frame {p : Predicate} {added : Nat}
    (run : populate f list p t = .ok (added, u)) : ∃ members, u = { t with members := members } :=
  ⟨_, (populate_cases run).2⟩

theorem insertUnionBlock_frame {b : Block f} (run : insertUnionBlock list b t = .ok ((), u)) :
    ∃ unions, u = { t with unions := unions } := by
  unfold insertUnionBlock at run
  split at run
  · cases run
  · split at run <;> cases run
    exact ⟨_, rfl⟩

theorem insertCoverageBlock_frame {b : Block f} (run : insertCoverageBlock b t = .ok ((), u)) :
    ∃ held, u = { t with coverage := held } := by
  unfold insertCoverageBlock at run
  split at run <;> cases run
  exact ⟨_, rfl⟩

end Write

end NetRegistry
