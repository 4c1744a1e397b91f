/-
# Proofs.Import.Session -- one import, from its begin to its end

An import begins with the row of its registrar, which is added if need be
(`Tables.registered`), and holds the tables from before to go back to.  Its inserts
write one record after the other (`Writes`), and a `Delivery` is what they have
reported.  Finishing it cannot fail while its transaction is open, and `Settled`
says what it makes of the tables; aborting and dropping it go back.
-/
import NetRegistry.Import
import NetRegistry.Proofs.Cover.Tiling
import NetRegistry.Proofs.Store.Session

namespace NetRegistry

set_option autoImplicit false

open Fallible (Ends)

/-- The row of a registrar, with the tables after it was added if there was none. -/
def Tables.registered (t : Tables) (name : String) : RegistrarRow × Tables :=
  match t.registrarNamed? name with
  | some row => (row, t)
  | none =>
      let row : RegistrarRow := ⟨nextId (t.registrars.map (·.id)), name, 0, 0⟩
      (row, { t with registrars := t.registrars ++ [row] })

/-- Adding a registrar touches nothing else. -/
theorem Tables.registered_eq (t : Tables) (name : String) :
    (t.registered name).2 = { t with registrars := (t.registered name).2.registrars } := by
  unfold registered
  split <;> rfl

namespace Importer

variable {s : Session} {t saved : Tables} {name : String} {i : Importer}

/-! ## Beginning -/

/-- The import is one of the registrar with that row, under its next serial. -/
structure Begins (i : Importer) (row : RegistrarRow) : Prop where
  id : i.registrar.id = row.id
  name : i.registrar.name = row.name
  serial : (i.serial : Int) = row.serial + 1

theorem ensureRegistrar_ends {saved : Option Tables} (on : s.db = ⟨t, saved⟩) (name : String) :
    Ends (ensureRegistrar name) s
      (fun r v => v.db = ⟨(t.registered name).2, saved⟩ ∧
        Read.registrar (t.registered name).1 = .ok r)
      (fun v => v.db = ⟨t, saved⟩) := by
  have query : (Session.query (·.readRegistrar name)).run s =
      ((t.readRegistrar name).mapError .storage, s) := by
    obtain ⟨_, calls, log⟩ := s
    cases on
    rfl
  unfold Ends
  rw [ensureRegistrar, Fallible.run_bind, query, Tables.readRegistrar, Tables.registered]
  cases found : t.registrarNamed? name with
  | some row =>
    cases read : Read.registrar row with
    | error e =>
      simp only [read]
      exact on
    | ok r =>
      simp only [read]
      exact ⟨on, rfl⟩
  | none =>
    obtain ⟨_, calls, log⟩ := s
    cases on
    have fits : (0 : Int) ≤ 0 ∧ (0 : Int) ≤ maxSerial := ⟨Int.le_refl 0, Int.natCast_nonneg _⟩
    refine ⟨rfl, ?_⟩
    simp only [Read.registrar, Read.bounded, if_pos fits]
    rfl

theorem begins_of_read {row : RegistrarRow} {r : Registrar} (read : Read.registrar row = .ok r) :
    Begins ⟨r, noStats (r.serial + 1)⟩ row := by
  unfold Read.registrar Read.bounded at read
  split at read
  · rename_i fits
    cases read
    refine ⟨rfl, rfl, ?_⟩
    show ((row.serial.toNat + 1 : Nat) : Int) = row.serial + 1
    have := fits.1
    omega
  · cases read

/-- **An import begins** in a transaction of its own and has counted nothing, or does nothing. -/
theorem begin_ends (closed : s.db = ⟨t, none⟩) (name : String) :
    Ends (begin name) s
      (fun i v => v.db = ⟨(t.registered name).2, some t⟩ ∧ i.Begins (t.registered name).1 ∧
        i.stats = noStats i.serial)
      (fun v => v.db = ⟨t, none⟩) := by
  have calm : ∀ n, FaultPlan.none .begin n = none := fun _ => rfl
  refine Ends.bind (Ends.of_ok (Session.run_begin calm closed) ?_)
  refine Ends.bind (Ends.attempt ?_)
  refine (ensureRegistrar_ends rfl name).imp ?_ ?_
  · intro r v ⟨db, read⟩
    have opened : v.db.saved = some t := by rw [db]
    dsimp only
    split
    · exact ⟨db, begins_of_read read, rfl⟩
    · exact Ends.bind (Ends.of_ok (Session.run_rollback FaultPlan.none_works opened) rfl)
  · intro v db e
    have opened : v.db.saved = some t := by rw [db]
    exact Ends.bind (Ends.of_ok (Session.run_rollback FaultPlan.none_works opened) rfl)

/-! ## Inserting -/

/-- What an import has reported so far, newest first. -/
structure Delivery where
  orgs : List OrgRecord
  netblocks : PerFamily fun f => List (NetblockRecord f)

namespace Delivery

def empty : Delivery := ⟨[], ⟨[], []⟩⟩

def withOrg (d : Delivery) (o : OrgRecord) : Delivery := { d with orgs := o :: d.orgs }

def withNetblock {f : Family} (d : Delivery) (n : NetblockRecord f) : Delivery :=
  { d with netblocks := d.netblocks.set f (n :: d.netblocks.get f) }

/-- The blocks of a range, each with the same attributes. -/
def withBlocks {f : Family} (a : Attributes) (d : Delivery) (blocks : List (Block f)) : Delivery :=
  blocks.foldl (fun d b => d.withNetblock (blockRecord a b)) d

end Delivery

/-- Records of a registrar are written under a serial, one after the other, and reported in the
delivery. -/
inductive Writes (registrar : RowId) (serial : Nat) : Tables → Delivery → Tables → Delivery → Prop
  | refl (t : Tables) (d : Delivery) : Writes registrar serial t d t d
  | org {t u v : Tables} {c d : Delivery} {o : OrgRecord} {new : Bool}
      (before : Writes registrar serial t c u d)
      (run : Write.writeOrg registrar serial o u = .ok (new, v)) :
      Writes registrar serial t c v (d.withOrg o)
  | netblock {t u v : Tables} {c d : Delivery} {f : Family} {n : NetblockRecord f} {new : Bool}
      (before : Writes registrar serial t c u d) (accepted : check n = .ok ())
      (run : Write.writeNetblock registrar serial n u = .ok (new, v)) :
      Writes registrar serial t c v (d.withNetblock n)

theorem Writes.trans {registrar : RowId} {serial : Nat} {t u v : Tables} {b c d : Delivery}
    (first : Writes registrar serial t b u c) (second : Writes registrar serial u c v d) :
    Writes registrar serial t b v d := by
  induction second with
  | refl => exact first
  | org _ run ih => exact (ih first).org run
  | netblock _ accepted run ih => exact (ih first).netblock accepted run

/-- The same import after it has written, with the rows that were added counted as new. -/
structure Continues (i : Importer) (t : Tables) (j : Importer) (u : Tables) : Prop where
  registrar : j.registrar = i.registrar
  serial : j.serial = i.serial
  orgs : u.orgs.length + i.stats.orgs.new = t.orgs.length + j.stats.orgs.new
  netblocks : ∀ f, (u.netblocks.get f).length + (i.stats.netblocks.get f).new =
    (t.netblocks.get f).length + (j.stats.netblocks.get f).new

namespace Continues

theorem refl (i : Importer) (t : Tables) : i.Continues t i t := ⟨rfl, rfl, rfl, fun _ => rfl⟩

theorem trans {i j k : Importer} {t u v : Tables} (first : i.Continues t j u)
    (second : j.Continues u k v) : i.Continues t k v := by
  refine ⟨second.registrar.trans first.registrar, second.serial.trans first.serial, ?_, ?_⟩
  · have before := first.orgs
    have after := second.orgs
    omega
  · intro f
    have before := first.netblocks f
    have after := second.netblocks f
    omega

/-- One more organization. -/
theorem org {i : Importer} {t u : Tables} {o : OrgRecord} {new : Bool}
    (run : Write.writeOrg i.registrar.id i.serial o t = .ok (new, u)) :
    i.Continues t (if new then i.countOrg else i) u := by
  have added := Write.writeOrg_length run
  obtain ⟨rows, rfl⟩ := Write.writeOrg_frame run
  cases new with
  | false =>
    refine ⟨rfl, rfl, ?_, fun _ => rfl⟩
    rw [added]
    rfl
  | true =>
    refine ⟨rfl, rfl, ?_, fun _ => rfl⟩
    rw [added]
    exact Nat.add_right_comm _ _ _

theorem get_countNetblock {f : Family} (i : Importer) (g : Family) :
    ((i.countNetblock f).stats.netblocks.get g).new =
      (i.stats.netblocks.get g).new + (decide (g = f)).toNat := by
  cases f <;> cases g <;> rfl

/-- One more netblock. -/
theorem netblock {i : Importer} {t u : Tables} {f : Family} {n : NetblockRecord f} {new : Bool}
    (run : Write.writeNetblock i.registrar.id i.serial n t = .ok (new, u)) :
    i.Continues t (if new then i.countNetblock f else i) u := by
  have added := Write.writeNetblock_length run
  obtain ⟨rows, rfl⟩ := Write.writeNetblock_frame run
  cases new with
  | false =>
    refine ⟨rfl, rfl, rfl, fun g => ?_⟩
    by_cases same : g = f
    · subst same
      rw [added]
      rfl
    · rw [PerFamily.get_set_ne _ _ same]
      rfl
  | true =>
    refine ⟨rfl, rfl, rfl, fun g => ?_⟩
    rw [if_pos rfl, get_countNetblock]
    by_cases same : g = f
    · subst same
      rw [added, decide_eq_true rfl]
      exact Nat.add_right_comm _ _ _
    · rw [PerFamily.get_set_ne _ _ same, decide_eq_false same]
      rfl

end Continues

theorem Begins.goesOn {i j : Importer} {t u : Tables} {row : RegistrarRow} (begins : i.Begins row)
    (continues : i.Continues t j u) : j.Begins row := by
  refine ⟨?_, ?_, ?_⟩
  · rw [continues.registrar, begins.id]
  · rw [continues.registrar, begins.name]
  · rw [continues.serial, begins.serial]

/-- The registrar of the import is there. -/
def Known (i : Importer) (t : Tables) : Prop := (t.registrar? i.registrar.id).isSome = true

variable {stored : Option Tables}

/-- What inserts leave alone is the same. -/
structure Frame (t u : Tables) : Prop where
  registrars : u.registrars = t.registrars
  lists : u.lists = t.lists
  unions : u.unions = t.unions

theorem Writes.frame {registrar : RowId} {serial : Nat} {t u : Tables} {c d : Delivery}
    (writes : Writes registrar serial t c u d) : Frame t u := by
  induction writes with
  | refl => exact ⟨rfl, rfl, rfl⟩
  | org _ run ih =>
    obtain ⟨orgs, rfl⟩ := Write.writeOrg_frame run
    exact ⟨ih.registrars, ih.lists, ih.unions⟩
  | netblock _ _ run ih =>
    obtain ⟨rows, rfl⟩ := Write.writeNetblock_frame run
    exact ⟨ih.registrars, ih.lists, ih.unions⟩

/-- Inserts leave the registrar there. -/
theorem Known.goesOn {j : Importer} {u : Tables} {c d : Delivery} (known : i.Known t)
    (continues : i.Continues t j u) (writes : Writes i.registrar.id i.serial t c u d) : j.Known u := by
  unfold Known Tables.registrar? at known ⊢
  rw [continues.registrar, writes.frame.registrars]
  exact known

theorem insertOrg_ends (on : s.db = ⟨t, stored⟩) (known : i.Known t) (o : OrgRecord) :
    Ends (i.insertOrg o) s
      (fun j v => ∃ u, i.Continues t j u ∧ v.db = ⟨u, stored⟩ ∧
        ∀ d, Writes i.registrar.id i.serial t d u (d.withOrg o))
      (fun _ => False) := by
  obtain ⟨new, u, run⟩ := Write.writeOrg_ok known i.serial o
  refine Ends.bind (Ends.of_ok (Session.run_exec on run) ?_)
  exact Ends.pure ⟨u, .org run, rfl, fun d => (Writes.refl t d).org run⟩

/-- A netblock that is refused changes nothing. -/
theorem run_insertNetblock_of_refused {f : Family} {n : NetblockRecord f} {e : Error}
    (refused : check n = .error e) : (i.insertNetblock n).run s = (.error e, s) := by
  rw [insertNetblock, refused]
  rfl

theorem run_insertNetblock_of_accepted {f : Family} {n : NetblockRecord f} {new : Bool} {u : Tables}
    (accepted : check n = .ok ()) (on : s.db = ⟨t, stored⟩)
    (run : Write.writeNetblock i.registrar.id i.serial n t = .ok (new, u)) :
    (i.insertNetblock n).run s =
      (.ok (if new then i.countNetblock f else i), { s with db := ⟨u, stored⟩ }) := by
  rw [insertNetblock, accepted, Fallible.run_ok_bind, Fallible.run_bind, Session.run_exec on run]
  rfl

/-- A netblock is refused, or written. -/
theorem insertNetblock_ends {f : Family} (on : s.db = ⟨t, stored⟩) (known : i.Known t)
    (n : NetblockRecord f) :
    Ends (i.insertNetblock n) s
      (fun j v => ∃ u, i.Continues t j u ∧ v.db = ⟨u, stored⟩ ∧
        ∀ d, Writes i.registrar.id i.serial t d u (d.withNetblock n))
      (fun v => v = s ∧ check n ≠ .ok ()) := by
  cases accepted : check n with
  | error e =>
    exact Ends.of_error (run_insertNetblock_of_refused accepted) ⟨rfl, fun ok => by cases ok⟩
  | ok _ =>
    obtain ⟨new, u, run⟩ := Write.writeNetblock_ok known i.serial n
    refine Ends.of_ok (run_insertNetblock_of_accepted accepted on run) ?_
    exact ⟨u, .netblock run, rfl, fun d => (Writes.refl t d).netblock accepted run⟩

theorem check_blockRecord {f : Family} {b : Block f} (valid : b.Valid) (a : Attributes) :
    check (blockRecord a b) = .ok () := by
  unfold check blockRecord
  rw [valid.prefixLen?_range]
  exact if_pos rfl

/-- The blocks of a range are all written. -/
theorem insertBlocks_ends {f : Family} (a : Attributes) {blocks : List (Block f)}
    (valid : ∀ b ∈ blocks, b.Valid) (on : s.db = ⟨t, stored⟩) (known : i.Known t) :
    Ends (insertBlocks a blocks) (i, s)
      (fun _ w => ∃ u, i.Continues t w.1 u ∧ w.2.db = ⟨u, stored⟩ ∧
        ∀ d, Writes i.registrar.id i.serial t d u (d.withBlocks a blocks))
      (fun _ => False) := by
  induction blocks generalizing i s t with
  | nil => exact Ends.pure ⟨t, .refl i t, on, .refl t⟩
  | cons b rest ih =>
    have written := insertNetblock_ends on known (blockRecord a b)
    refine Ends.bind (Ends.get (Ends.bind (Ends.onSecond (written.imp ?_ ?_))))
    · intro j v ⟨u, continues, db, writes⟩
      have knownJ : j.Known u := known.goesOn continues (writes .empty)
      refine Ends.bind (Ends.modify ?_)
      refine (ih (fun c member => valid c (List.mem_cons_of_mem _ member)) db knownJ).imp ?_
        fun _ => id
      intro _ w ⟨u', onward, db', writes'⟩
      rw [continues.serial, continues.registrar] at writes'
      exact ⟨u', continues.trans onward, db', fun d =>
        (writes d).trans (writes' (d.withNetblock (blockRecord a b)))⟩
    · intro v ⟨_, refused⟩
      exact refused (check_blockRecord (valid b List.mem_cons_self) a)

theorem insertRange_ends {f : Family} {r : Range f} (ordered : r.first ≤ r.last) (a : Attributes)
    (on : s.db = ⟨t, stored⟩) (known : i.Known t) :
    Ends (insertRange r a) (i, s)
      (fun _ w => ∃ u, i.Continues t w.1 u ∧ w.2.db = ⟨u, stored⟩ ∧
        ∀ d, Writes i.registrar.id i.serial t d u (d.withBlocks a r.blocks))
      (fun _ => False) := by
  have valid := (Range.blocks_canonicalCover ordered).valid
  refine Ends.bind ((insertBlocks_ends a valid on known).imp ?_ fun _ => id)
  intro _ w written
  dsimp only
  split
  · exact Ends.bind (Ends.onSecond written)
  · exact Ends.pure written

/-! ## Ending -/

/-- What finishing an import makes of the tables: records of the registrar that carry another serial
are deleted, links change, and the registrar gets the serial. -/
structure Settled (i : Importer) (now : Nat) (t u : Tables) : Prop where
  registrars : u.registrars = t.registrars.map fun r =>
    if r.id == i.registrar.id then { r with serial := i.serial, lastImport := now } else r
  orgs : u.orgs = t.orgs.filter fun o =>
    !(o.registrar == i.registrar.id && o.serial != (i.serial : Int))
  netblocks : ∀ f, ∃ link : NetblockRow → Option RowId,
    u.netblocks.get f =
      ((t.netblocks.get f).filter fun n =>
        !(n.registrar == i.registrar.id && n.serial != (i.serial : Int))).map fun n =>
          { n with org := link n }
  lists : u.lists = t.lists
  unions : u.unions = t.unions

/-- Unlinking and linking again are one change of links. -/
theorem map_links {change again : NetblockRow → NetblockRow}
    (unlink : ∀ n, change n = { n with org := (change n).org })
    (link : ∀ n, again n = { n with org := (again n).org }) (rows : List NetblockRow) :
    (rows.map change).map again =
      rows.map fun n => { n with org := (again (change n)).org } := by
  rw [List.map_map]
  refine List.map_congr_left fun n _ => ?_
  show again (change n) = _
  rw [link (change n)]
  exact congrArg (fun m : NetblockRow => { m with org := (again (change n)).org }) (unlink n)

/-- The statistics that finishing an import gives: what it has counted as new, and how many records
of the registrar carry another serial. -/
def settledStats (i : Importer) (t : Tables) : ImportStats :=
  { serial := i.serial
    orgs := ⟨i.stats.orgs.new,
      t.orgs.countP fun o => o.registrar == i.registrar.id && o.serial != (i.serial : Int)⟩
    netblocks := .ofFn fun f => ⟨(i.stats.netblocks.get f).new,
      (t.netblocks.get f).countP fun n =>
        n.registrar == i.registrar.id && n.serial != (i.serial : Int)⟩ }

theorem finish_run (opened : s.db = ⟨t, some saved⟩) (now : Nat) (i : Importer) :
    ∃ u v, (finish now i).run s = (.ok (i.settledStats t), v) ∧ v.db = ⟨u, none⟩ ∧
      Settled i now t u := by
  unfold settledStats
  simp only [List.countP_eq_length_filter]
  obtain ⟨_, calls, log⟩ := s
  cases opened
  refine ⟨_, _, rfl, rfl, rfl, rfl, ?_, rfl, rfl⟩
  intro f
  cases f <;> refine ⟨_, map_links ?_ ?_ _⟩ <;> intro n <;> dsimp only <;> split <;> rfl

theorem drop_db (opened : s.db.saved = some saved) (i : Importer) :
    (i.drop s).db = ⟨saved, none⟩ := by
  have noted : (s.noted ⟨.warn, s!"import of {i.registrar.name} dropped unfinished, rolling back"⟩
      ).db.saved = some saved := opened
  unfold drop
  dsimp only
  rw [Session.run_rollback FaultPlan.none_works noted]

theorem abort_run (opened : s.db.saved = some saved) (i : Importer) :
    ∃ v, i.abort.run s = (.ok (), v) ∧ v.db = ⟨saved, none⟩ := by
  have noted : (s.noted ⟨.warn, s!"import of {i.registrar.name} aborted"⟩).db.saved =
      some saved := opened
  exact ⟨_, Session.run_rollback FaultPlan.none_works noted, rfl⟩

end Importer

end NetRegistry
