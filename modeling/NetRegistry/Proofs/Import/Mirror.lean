/-
# Proofs.Import.Mirror -- tables that mirror the last deliveries

Rows are deleted only by comparing serials, so what makes a finished import right
is what held of the tables before it: every row of a registrar carries the serial
of the registrar and shows what its last delivery reported (`Mirrors`).  The
delivery of an open import lies over that (`Kind.overlaid`), under the next serial;
finishing the import deletes what shows through (`Mirrors.settled`).

A `Kind` is a kind of records, organizations or the netblocks of a family, with
what a delivery reports of them.  The last report under a key counts.
-/
import NetRegistry.Proofs.Import.Keyed
import NetRegistry.Proofs.Import.Session

namespace NetRegistry

set_option autoImplicit false

/-! ## Records as rows -/

/-- The row that an organization is written as, without its id. -/
def OrgRecord.row (o : OrgRecord) (registrar : RowId) (serial : Int) : OrgRow :=
  ⟨0, registrar, serial, o.handle, o.name, o.descr⟩

/-- The row that a netblock is written as, without its id and its link. -/
def NetblockRecord.row {f : Family} (n : NetblockRecord f) (registrar : RowId) (serial : Int) :
    NetblockRow :=
  ⟨0, registrar, serial, n.reference, none, n.range.first.toCell, n.range.last.toCell,
    n.prefixLen, n.name, n.descr⟩

/-- The row without its id. -/
def OrgRow.written (o : OrgRow) : OrgRow := { o with id := 0 }

/-- The row without its id and its link. -/
def NetblockRow.written (n : NetblockRow) : NetblockRow := { n with id := 0, org := none }

namespace Importer.Delivery

/-- The last report of an organization. -/
def org? (d : Delivery) (handle : String) : Option OrgRecord :=
  d.orgs.find? (·.handle == handle)

/-- The last report of a netblock, by its addresses as they are stored. -/
def netblock? (d : Delivery) (f : Family) (cells : Cell × Cell) : Option (NetblockRecord f) :=
  (d.netblocks.get f).find? fun n => n.range.first.toCell == cells.1 && n.range.last.toCell == cells.2

end Importer.Delivery

open Importer (Delivery Writes Settled)

/-- A kind of records that imports deliver. -/
structure Kind (α κ : Type) extends Keying α κ where
  serial : α → Int
  /-- The row that a delivery asks for under a key, when it belongs to that registrar and serial. -/
  asked : Delivery → RowId → Int → κ → Option α
  stamped : ∀ d g n k e, asked d g n k = some e → serial e = n
  nothing : ∀ g n k, asked .empty g n k = none

namespace Kind

/-- Organizations, known by their handles. -/
def orgs : Kind OrgRow String where
  owner := (·.registrar)
  key := (·.handle)
  written := OrgRow.written
  serial := (·.serial)
  asked d g n k := (d.org? k).map (·.row g n)
  stamped := by
    intro d g n k e asked
    obtain ⟨o, -, rfl⟩ := Option.map_eq_some_iff.mp asked
    rfl
  nothing _ _ _ := rfl

/-- The netblocks of a family, known by their stored addresses. -/
def netblocks (f : Family) : Kind NetblockRow (Cell × Cell) where
  owner := (·.registrar)
  key n := (n.first, n.last)
  written := NetblockRow.written
  serial := (·.serial)
  asked d g n k := (d.netblock? f k).map (·.row g n)
  stamped := by
    intro d g n k e asked
    obtain ⟨o, -, rfl⟩ := Option.map_eq_some_iff.mp asked
    rfl
  nothing _ _ _ := by cases f <;> rfl

variable {α κ : Type} (K : Kind α κ)

/-- What a registrar's last delivery asks for, under the serial of the registrar. -/
def mirrored (t : Tables) (finished : String → List Delivery) (g : RowId) (k : κ) : Option α :=
  (t.registrar? g).bind fun r => (finished r.name).head?.bind fun d => K.asked d g r.serial k

/-- A delivery that lies over what was there before. -/
def overlaid (below : RowId → κ → Option α) (d : Delivery) (registrar : RowId) (serial : Int)
    (g : RowId) (k : κ) : Option α :=
  if g == registrar then (K.asked d registrar serial k).or (below g k) else below g k

/-- Whether a row survives when an import of the registrar is finished under the serial. -/
def survives (registrar : RowId) (serial : Int) (g : RowId) (e : α) : Bool :=
  !(g == registrar && K.serial e != serial)

variable {K} {below : RowId → κ → Option α} {d d' : Delivery} {registrar : RowId} {serial : Int}

theorem overlaid_empty : K.overlaid below .empty registrar serial = below := by
  funext g k
  unfold overlaid
  split
  · rw [K.nothing, Option.none_or]
  · rfl

/-- One more report. -/
theorem overlaid_put [DecidableEq κ] {key : κ} {entry : α}
    (reported : ∀ k, K.asked d' registrar serial k =
      if k = key then some entry else K.asked d registrar serial k) :
    Keying.put (K.overlaid below d registrar serial) registrar key entry =
      K.overlaid below d' registrar serial := by
  funext g k
  unfold Keying.put overlaid
  by_cases own : g = registrar
  · rw [own, reported k]
    by_cases same : k = key <;> simp [same]
  · simp [own]

/-- What survives of a registrar whose earlier rows carry other serials is its delivery. -/
theorem filter_overlaid_own (old : ∀ k e, below registrar k = some e → K.serial e ≠ serial) (k : κ) :
    (K.overlaid below d registrar serial registrar k).filter (K.survives registrar serial registrar) =
      K.asked d registrar serial k := by
  unfold overlaid
  rw [if_pos (beq_self_eq_true registrar)]
  cases asked : K.asked d registrar serial k with
  | some e =>
    have stamp := K.stamped d registrar serial k e asked
    simp [survives, stamp, Option.filter]
  | none =>
    rw [Option.none_or]
    cases shown : below registrar k with
    | none => rfl
    | some e =>
      have other := old k e shown
      simp [survives, other, Option.filter]

/-- The rows of other registrars all survive. -/
theorem filter_overlaid_other {g : RowId} (other : g ≠ registrar) (k : κ) :
    (K.overlaid below d registrar serial g k).filter (K.survives registrar serial g) = below g k := by
  have kept : K.survives registrar serial g = fun _ => true := by
    funext e
    simp [survives, other]
  have through : K.overlaid below d registrar serial g k = below g k :=
    if_neg fun same => other (beq_iff_eq.mp same)
  rw [through, kept]
  cases below g k <;> rfl

end Kind

/-! ## Inserts -/

namespace Importer

variable {t u : Tables} {registrar : RowId} {serial : Nat}

theorem writeOrg_shows {o : OrgRecord} {new : Bool} {content : RowId → String → Option OrgRow}
    (run : Write.writeOrg registrar serial o t = .ok (new, u))
    (shows : Kind.orgs.Shows t.orgs content) :
    Kind.orgs.Shows u.orgs (Keying.put content registrar o.handle (o.row registrar serial)) := by
  rcases Write.writeOrg_cases run with ⟨there, rfl⟩ | ⟨missing, -, rfl⟩
  · refine shows.refresh there ?_ ?_ ?_ ?_
    · intro r
      dsimp only [Kind.orgs]
      split <;> rfl
    · intro r
      dsimp only [Kind.orgs]
      split <;> rfl
    · intro r other
      exact if_neg (Bool.eq_false_iff.mp other)
    · intro r same
      have found : Write.isOrg registrar o r = true := same
      obtain ⟨owner, handle⟩ := Keying.has_iff.mp same
      rw [if_pos found, ← show r.registrar = registrar from owner]
      exact congrArg (fun h => (⟨0, r.registrar, serial, h, o.name, o.descr⟩ : OrgRow)) handle
  · refine shows.append missing ?_ rfl
    exact Keying.has_iff.mpr ⟨rfl, rfl⟩

theorem has_netblock {f : Family} (n : NetblockRecord f) :
    (Kind.netblocks f).has registrar (n.range.first.toCell, n.range.last.toCell) =
      Write.isNetblock registrar n := by
  funext r
  rw [Bool.eq_iff_iff, Keying.has_iff]
  simp [Kind.netblocks, Write.isNetblock, and_assoc]

theorem writeNetblock_shows {f : Family} {n : NetblockRecord f} {new : Bool}
    {content : RowId → Cell × Cell → Option NetblockRow}
    (run : Write.writeNetblock registrar serial n t = .ok (new, u))
    (shows : (Kind.netblocks f).Shows (t.netblocks.get f) content) :
    (Kind.netblocks f).Shows (u.netblocks.get f)
      (Keying.put content registrar (n.range.first.toCell, n.range.last.toCell)
        (n.row registrar serial)) := by
  rcases Write.writeNetblock_cases run with ⟨there, rfl⟩ | ⟨missing, -, rfl⟩ <;>
    rw [PerFamily.get_set_self]
  · rw [← has_netblock] at there ⊢
    refine shows.refresh there ?_ ?_ ?_ ?_
    · intro r
      split <;> rfl
    · intro r
      split <;> rfl
    · intro r other
      exact if_neg (Bool.eq_false_iff.mp other)
    · intro r same
      obtain ⟨owner, cells⟩ := Keying.has_iff.mp same
      obtain ⟨first, last⟩ := Prod.mk.inj cells
      rw [if_pos same, ← show r.registrar = registrar from owner]
      simp only [Kind.netblocks, NetblockRow.written, NetblockRecord.row, Write.refreshNetblock,
        first, last]
  · rw [← has_netblock] at missing
    refine shows.append missing ?_ rfl
    exact Keying.has_iff.mpr ⟨rfl, rfl⟩

theorem asked_withOrg (d : Delivery) (o : OrgRecord) (g : RowId) (n : Int) (k : String) :
    Kind.orgs.asked (d.withOrg o) g n k =
      if k = o.handle then some (o.row g n) else Kind.orgs.asked d g n k := by
  show ((o :: d.orgs).find? (·.handle == k)).map (·.row g n) = _
  by_cases same : k = o.handle
  · have found : (o.handle == k) = true := beq_iff_eq.mpr same.symm
    rw [if_pos same, List.find?_cons, found]
    rfl
  · have missed : (o.handle == k) = false := beq_false_of_ne fun other => same other.symm
    rw [if_neg same, List.find?_cons, missed]
    rfl

theorem asked_withNetblock {f : Family} (d : Delivery) (r : NetblockRecord f) (g : RowId) (n : Int)
    (k : Cell × Cell) :
    (Kind.netblocks f).asked (d.withNetblock r) g n k =
      if k = (r.range.first.toCell, r.range.last.toCell) then some (r.row g n)
      else (Kind.netblocks f).asked d g n k := by
  show (((d.netblocks.set f (r :: d.netblocks.get f)).get f).find? fun n =>
    n.range.first.toCell == k.1 && n.range.last.toCell == k.2).map (·.row g n) = _
  rw [PerFamily.get_set_self]
  by_cases same : k = (r.range.first.toCell, r.range.last.toCell)
  · have found : (r.range.first.toCell == k.1 && r.range.last.toCell == k.2) = true := by
      simp [same]
    rw [if_pos same, List.find?_cons, found]
    rfl
  · have missed : (r.range.first.toCell == k.1 && r.range.last.toCell == k.2) = false := by
      refine Bool.eq_false_iff.mpr fun other => same ?_
      simp only [Bool.and_eq_true, beq_iff_eq] at other
      exact Prod.ext other.1.symm other.2.symm
    rw [if_neg same, List.find?_cons, missed]
    rfl

theorem asked_withNetblock_ne {f g : Family} (d : Delivery) (n : NetblockRecord f) (ne : g ≠ f) :
    (Kind.netblocks g).asked (d.withNetblock n) = (Kind.netblocks g).asked d := by
  funext registrar serial k
  show (((d.netblocks.set f (n :: d.netblocks.get f)).get g).find? _).map _ = _
  rw [PerFamily.get_set_ne _ _ ne]
  rfl

theorem Writes.shows_orgs {c d : Delivery} (writes : Writes registrar serial t c u d)
    {below : RowId → String → Option OrgRow}
    (shows : Kind.orgs.Shows t.orgs (Kind.orgs.overlaid below c registrar serial)) :
    Kind.orgs.Shows u.orgs (Kind.orgs.overlaid below d registrar serial) := by
  induction writes with
  | refl => exact shows
  | org _ run ih => exact Kind.overlaid_put (asked_withOrg _ _ _ _) ▸ writeOrg_shows run (ih shows)
  | netblock _ _ run ih =>
    obtain ⟨rows, rfl⟩ := Write.writeNetblock_frame run
    exact ih shows

theorem Writes.shows_netblocks {c d : Delivery} (writes : Writes registrar serial t c u d)
    (f : Family) {below : RowId → Cell × Cell → Option NetblockRow}
    (shows : (Kind.netblocks f).Shows (t.netblocks.get f)
      ((Kind.netblocks f).overlaid below c registrar serial)) :
    (Kind.netblocks f).Shows (u.netblocks.get f)
      ((Kind.netblocks f).overlaid below d registrar serial) := by
  induction writes with
  | refl => exact shows
  | org _ run ih =>
    obtain ⟨orgs, rfl⟩ := Write.writeOrg_frame run
    exact ih shows
  | @netblock u v c d g n new _ _ run ih =>
    by_cases same : f = g
    · subst same
      exact Kind.overlaid_put (asked_withNetblock _ _ _ _) ▸ writeNetblock_shows run (ih shows)
    · obtain ⟨rows, rfl⟩ := Write.writeNetblock_frame run
      have asked := asked_withNetblock_ne d n same
      show (Kind.netblocks f).Shows ((u.netblocks.set g rows).get f) _
      rw [PerFamily.get_set_ne _ _ same]
      have shown := ih shows
      unfold Kind.overlaid at shown ⊢
      rw [asked]
      exact shown

end Importer

/-! ## Finished imports -/

/-- The deliveries of every registrar, newest first, after one more was finished. -/
def Importer.Delivery.finish (finished : String → List Delivery) (name : String) (d : Delivery) :
    String → List Delivery :=
  fun other => if other == name then d :: finished other else finished other

/-- The tables mirror the last finished delivery of every registrar. -/
structure Mirrors (t : Tables) (finished : String → List Delivery) : Prop where
  ids : (t.registrars.map (·.id)).Nodup
  names : (t.registrars.map (·.name)).Nodup
  known : ∀ name, (∃ r ∈ t.registrars, r.name = name) ↔ finished name ≠ []
  serials : ∀ r ∈ t.registrars, r.serial = (finished r.name).length
  orgs : Kind.orgs.Shows t.orgs (Kind.orgs.mirrored t finished)
  netblocks : ∀ f, (Kind.netblocks f).Shows (t.netblocks.get f)
    ((Kind.netblocks f).mirrored t finished)

namespace Mirrors

variable {t u saved : Tables} {finished : String → List Delivery} {name : String}

theorem empty : Mirrors .empty fun _ => [] := by
  refine ⟨List.nodup_nil, List.nodup_nil, ?_, ?_, fun _ _ => rfl, fun f g k => ?_⟩
  · intro name
    constructor
    · rintro ⟨r, member, -⟩
      cases member
    · intro some
      exact absurd rfl some
  · intro r member
    cases member
  · cases f <;> rfl

/-- Only what imports write matters. -/
theorem congr (mirrors : Mirrors t finished) (registrars : u.registrars = t.registrars)
    (orgs : u.orgs = t.orgs) (netblocks : u.netblocks = t.netblocks) : Mirrors u finished := by
  obtain ⟨_, _, _, _, _, _, _⟩ := u
  cases registrars
  cases orgs
  cases netblocks
  exact ⟨mirrors.ids, mirrors.names, mirrors.known, mirrors.serials, mirrors.orgs,
    mirrors.netblocks⟩

/-- The tables with a registrar that is added if need be, and its row. -/
structure Enrolled (saved base : Tables) (row : RegistrarRow) : Prop where
  ids : (base.registrars.map (·.id)).Nodup
  names : (base.registrars.map (·.name)).Nodup
  member : row ∈ base.registrars
  registrars : ∀ r, r ∈ base.registrars ↔ r = row ∨ r ∈ saved.registrars
  others : ∀ g, g ≠ row.id → base.registrar? g = saved.registrar? g
  /-- If the registrar was there before, its row was this one. -/
  same : ∀ r, saved.registrar? row.id = some r → r = row
  orgs : base.orgs = saved.orgs
  netblocks : base.netblocks = saved.netblocks

theorem Enrolled.eq_row {base : Tables} {row r : RegistrarRow} (enrolled : Enrolled saved base row)
    (member : r ∈ base.registrars) (same : r.id = row.id) : r = row := by
  have found := find?_key enrolled.ids member
  rw [same, find?_key enrolled.ids enrolled.member] at found
  exact (Option.some.inj found).symm

/-- Other registrars have other names. -/
theorem Enrolled.name_ne {base : Tables} {row r : RegistrarRow} (enrolled : Enrolled saved base row)
    (member : r ∈ base.registrars) (other : r.id ≠ row.id) : r.name ≠ row.name := by
  intro same
  have found := find?_key enrolled.names member
  rw [same, find?_key enrolled.names enrolled.member] at found
  exact other (congrArg (·.id) (Option.some.inj found)).symm

theorem enrolled_known (mirrors : Mirrors saved finished) {row : RegistrarRow}
    (member : row ∈ saved.registrars) : Enrolled saved saved row := by
  refine ⟨mirrors.ids, mirrors.names, member, ?_, fun _ _ => rfl, ?_, rfl, rfl⟩
  · intro r
    constructor
    · exact Or.inr
    · rintro (rfl | there)
      · exact member
      · exact there
  · intro r there
    have own : saved.registrar? row.id = some row := find?_key mirrors.ids member
    rw [own] at there
    exact (Option.some.inj there).symm

theorem enrolled_new (mirrors : Mirrors saved finished) {row : RegistrarRow}
    (unknown : ∀ r ∈ saved.registrars, r.name ≠ row.name)
    (id : row.id = nextId (saved.registrars.map (·.id))) :
    Enrolled saved { saved with registrars := saved.registrars ++ [row] } row := by
  have fresh : row.id ∉ saved.registrars.map (·.id) := id ▸ nextId_not_mem _
  refine ⟨?_, ?_, ?_, ?_, ?_, ?_, rfl, rfl⟩
  · dsimp only
    rw [List.map_append, List.map_singleton, id]
    exact nodup_append_nextId mirrors.ids
  · dsimp only
    rw [List.map_append, List.map_singleton]
    refine List.nodup_append.mpr ⟨mirrors.names, List.pairwise_singleton _ _, ?_⟩
    rintro other member _ new rfl
    obtain ⟨r, there, rfl⟩ := List.mem_map.mp member
    exact unknown r there (List.mem_singleton.mp new)
  · exact List.mem_append_right _ (List.mem_singleton.mpr rfl)
  · intro r
    dsimp only
    rw [List.mem_append, List.mem_singleton, or_comm]
  · intro g other
    dsimp only [Tables.registrar?] at other ⊢
    have apart : (row.id == g) = false := beq_false_of_ne fun same => other same.symm
    rw [List.find?_append, List.find?_cons, apart]
    simp
  · intro r there
    have member := List.mem_of_find?_eq_some there
    have same : r.id = row.id := by simpa using List.find?_some there
    exact absurd (same ▸ List.mem_map_of_mem member) fresh

/-- Beginning an import enrols its registrar, whose serial counts its finished imports. -/
theorem enrolled (mirrors : Mirrors saved finished) (name : String) :
    Enrolled saved (saved.registered name).2 (saved.registered name).1 ∧
      (saved.registered name).1.name = name ∧
      (saved.registered name).1.serial = (finished name).length := by
  unfold Tables.registered
  cases found : saved.registrarNamed? name with
  | some row =>
    have member := List.mem_of_find?_eq_some found
    have named : row.name = name := by simpa using List.find?_some found
    exact ⟨mirrors.enrolled_known member, named, named ▸ mirrors.serials row member⟩
  | none =>
    have unknown : ∀ r ∈ saved.registrars, r.name ≠ name := by
      intro r member same
      exact List.find?_eq_none.mp found r member (beq_iff_eq.mpr same)
    have never : finished name = [] := by
      refine Classical.byContradiction fun some => ?_
      obtain ⟨r, member, named⟩ := (mirrors.known name).mpr some
      exact unknown r member named
    refine ⟨mirrors.enrolled_new unknown rfl, rfl, ?_⟩
    rw [never]
    rfl

section Settled

variable {t base : Tables} {row : RegistrarRow} {i : Importer} {now : Nat} {d : Delivery}

/-- The registrar row after an import was finished. -/
def stamp (i : Importer) (now : Nat) (r : RegistrarRow) : RegistrarRow :=
  if r.id == i.registrar.id then { r with serial := i.serial, lastImport := now } else r

theorem stamp_id (r : RegistrarRow) : (stamp i now r).id = r.id := by
  unfold stamp
  split <;> rfl

theorem stamp_name (r : RegistrarRow) : (stamp i now r).name = r.name := by
  unfold stamp
  split <;> rfl

theorem stamp_own {r : RegistrarRow} (own : r.id = i.registrar.id) :
    (stamp i now r).serial = i.serial := by
  unfold stamp
  rw [if_pos (beq_iff_eq.mpr own)]

theorem stamp_other {r : RegistrarRow} (other : r.id ≠ i.registrar.id) : stamp i now r = r :=
  if_neg fun same => other (beq_iff_eq.mp same)

theorem registrar?_stamped (registrars : u.registrars = base.registrars.map (stamp i now))
    (g : RowId) : u.registrar? g = (base.registrar? g).map (stamp i now) := by
  unfold Tables.registrar?
  rw [registrars, List.find?_map]
  congr 2
  funext r
  exact congrArg (· == g) (stamp_id r)

theorem stamped_ids (registrars : u.registrars = base.registrars.map (stamp i now)) :
    u.registrars.map (·.id) = base.registrars.map (·.id) := by
  rw [registrars, List.map_map]
  exact List.map_congr_left fun r _ => stamp_id r

theorem stamped_names (registrars : u.registrars = base.registrars.map (stamp i now)) :
    u.registrars.map (·.name) = base.registrars.map (·.name) := by
  rw [registrars, List.map_map]
  exact List.map_congr_left fun r _ => stamp_name r

theorem mirrored_own {α κ : Type} (K : Kind α κ) (finished : String → List Delivery) (d : Delivery)
    (enrolled : Enrolled saved base row) (named : row.name = name) (own : i.registrar.id = row.id)
    (registrars : u.registrars = base.registrars.map (stamp i now)) (k : κ) :
    K.mirrored u (d.finish finished name) i.registrar.id k =
      K.asked d i.registrar.id i.serial k := by
  have found : u.registrar? i.registrar.id = some (stamp i now row) := by
    have there : base.registrar? row.id = some row := find?_key enrolled.ids enrolled.member
    rw [registrar?_stamped registrars, own, there]
    rfl
  unfold Kind.mirrored Delivery.finish
  rw [found, Option.bind_some, stamp_name, named, beq_self_eq_true, if_pos rfl, stamp_own own.symm]
  rfl

theorem mirrored_other {α κ : Type} (K : Kind α κ) (finished : String → List Delivery)
    (d : Delivery) (enrolled : Enrolled saved base row) (named : row.name = name)
    (own : i.registrar.id = row.id) (registrars : u.registrars = base.registrars.map (stamp i now))
    {g : RowId} (other : g ≠ i.registrar.id) (k : κ) :
    K.mirrored u (d.finish finished name) g k = K.mirrored saved finished g k := by
  have found : u.registrar? g = saved.registrar? g := by
    rw [registrar?_stamped registrars, enrolled.others g (own ▸ other)]
    cases there : saved.registrar? g with
    | none => rfl
    | some r =>
      have id : r.id = g := by simpa using List.find?_some there
      rw [Option.map_some, stamp_other (id ▸ other)]
  unfold Kind.mirrored
  rw [found]
  cases there : saved.registrar? g with
  | none => rfl
  | some r =>
    have id : r.id = g := by simpa using List.find?_some there
    have member := (enrolled.registrars r).mpr (Or.inr (List.mem_of_find?_eq_some there))
    have apart := named ▸ enrolled.name_ne member fun same => other (by rw [own, ← same, id])
    have kept : d.finish finished name r.name = finished r.name :=
      if_neg fun same => apart (beq_iff_eq.mp same)
    rw [Option.bind_some, Option.bind_some, kept]

/-- What survives a finished import is what the deliveries ask for, this one among them. -/
theorem filter_overlaid {α κ : Type} (K : Kind α κ) (finished : String → List Delivery)
    (d : Delivery) (enrolled : Enrolled saved base row) (named : row.name = name)
    (own : i.registrar.id = row.id) (serial : (i.serial : Int) = row.serial + 1)
    (registrars : u.registrars = base.registrars.map (stamp i now)) (g : RowId) (k : κ) :
    (K.overlaid (K.mirrored saved finished) d i.registrar.id i.serial g k).filter
        (K.survives i.registrar.id i.serial g) =
      K.mirrored u (d.finish finished name) g k := by
  by_cases same : g = i.registrar.id
  · rw [same, mirrored_own K finished d enrolled named own registrars]
    refine Kind.filter_overlaid_own (fun k e shown => ?_) k
    -- Earlier rows of the registrar carry its earlier serial.
    obtain ⟨r, there, bound⟩ := Option.bind_eq_some_iff.mp shown
    obtain ⟨d, -, asked⟩ := Option.bind_eq_some_iff.mp bound
    rw [own] at there
    obtain rfl := enrolled.same r there
    rw [K.stamped _ _ _ _ _ asked, serial]
    omega
  · rw [Kind.filter_overlaid_other same,
      mirrored_other K finished d enrolled named own registrars same]

/-- The registrars are then those that finished an import before, and this one. -/
theorem known_finish (mirrors : Mirrors saved finished) (enrolled : Enrolled saved base row)
    (named : row.name = name) (registrars : u.registrars = base.registrars.map (stamp i now))
    (d : Delivery) (other : String) :
    (∃ r ∈ u.registrars, r.name = other) ↔ d.finish finished name other ≠ [] := by
  have there : (∃ r ∈ u.registrars, r.name = other) ↔ other ∈ base.registrars.map (·.name) := by
    rw [← stamped_names registrars, List.mem_map]
  have before : other ∈ base.registrars.map (·.name) ↔ other = name ∨ finished other ≠ [] := by
    rw [← mirrors.known other, List.mem_map]
    constructor
    · rintro ⟨r, member, rfl⟩
      rcases (enrolled.registrars r).mp member with rfl | old
      · exact Or.inl named
      · exact Or.inr ⟨r, old, rfl⟩
    · rintro (rfl | ⟨r, old, rfl⟩)
      · exact ⟨row, enrolled.member, named⟩
      · exact ⟨r, (enrolled.registrars r).mpr (Or.inr old), rfl⟩
  rw [there, before]
  unfold Delivery.finish
  by_cases same : other = name <;> simp [same]

theorem serials_finish (mirrors : Mirrors saved finished) (enrolled : Enrolled saved base row)
    (named : row.name = name) (begins : i.Begins row) (counted : row.serial = (finished name).length)
    (registrars : u.registrars = base.registrars.map (stamp i now)) (d : Delivery) :
    ∀ r ∈ u.registrars, r.serial = (d.finish finished name r.name).length := by
  intro r member
  rw [registrars] at member
  obtain ⟨r, there, rfl⟩ := List.mem_map.mp member
  rw [stamp_name]
  unfold Delivery.finish
  by_cases own : r.id = i.registrar.id
  · obtain rfl := enrolled.eq_row there (own.trans begins.id)
    rw [stamp_own own, begins.serial, counted, named]
    simp
  · have other : r.id ≠ row.id := fun same => own (same.trans begins.id.symm)
    have apart := named ▸ enrolled.name_ne there other
    have old : r ∈ saved.registrars :=
      ((enrolled.registrars r).mp there).resolve_left fun same => other (congrArg (·.id) same)
    rw [stamp_other own, mirrors.serials r old]
    simp [apart]

/-- Under an open import its delivery lies over what was mirrored before. -/
theorem shows_orgs (mirrors : Mirrors saved finished) (enrolled : Enrolled saved base row)
    (writes : Writes i.registrar.id i.serial base .empty t d) :
    Kind.orgs.Shows t.orgs
      (Kind.orgs.overlaid (Kind.orgs.mirrored saved finished) d i.registrar.id i.serial) := by
  refine writes.shows_orgs ?_
  rw [enrolled.orgs, Kind.overlaid_empty]
  exact mirrors.orgs

theorem shows_netblocks (mirrors : Mirrors saved finished) (enrolled : Enrolled saved base row)
    (writes : Writes i.registrar.id i.serial base .empty t d) (f : Family) :
    (Kind.netblocks f).Shows (t.netblocks.get f)
      ((Kind.netblocks f).overlaid ((Kind.netblocks f).mirrored saved finished) d i.registrar.id
        i.serial) := by
  refine writes.shows_netblocks f ?_
  rw [enrolled.netblocks, Kind.overlaid_empty]
  exact mirrors.netblocks f

theorem registrars_settled (writes : Writes i.registrar.id i.serial base .empty t d)
    (settled : Settled i now t u) : u.registrars = base.registrars.map (stamp i now) := by
  rw [settled.registrars, writes.frame.registrars]
  rfl

/-- **A finished import** leaves tables that mirror its delivery. -/
theorem settled (mirrors : Mirrors saved finished)
    (begins : i.Begins (saved.registered name).1)
    (writes : Writes i.registrar.id i.serial (saved.registered name).2 .empty t d)
    (settled : Settled i now t u) : Mirrors u (d.finish finished name) := by
  obtain ⟨enrolled, named, counted⟩ := mirrors.enrolled name
  have registrars := registrars_settled writes settled
  have survivors := fun {α κ : Type} (K : Kind α κ) =>
    filter_overlaid K finished d enrolled named begins.id begins.serial registrars
  refine ⟨stamped_ids registrars ▸ enrolled.ids, stamped_names registrars ▸ enrolled.names,
    mirrors.known_finish enrolled named registrars d,
    mirrors.serials_finish enrolled named begins counted registrars d, ?_, ?_⟩
  · rw [settled.orgs]
    refine ((mirrors.shows_orgs enrolled writes).filter ?_).congr fun g k =>
      (survivors Kind.orgs g k).symm
    intro r
    rfl
  · intro f
    obtain ⟨link, rows⟩ := settled.netblocks f
    rw [rows]
    refine (((mirrors.shows_netblocks enrolled writes f).filter ?_).map ?_ ?_ ?_).congr fun g k =>
      (survivors (Kind.netblocks f) g k).symm
    · intro r
      rfl
    · intro r
      rfl
    · intro r
      rfl
    · intro r
      rfl

end Settled

end Mirrors

end NetRegistry
