/-
# Proofs.Import.Frame -- what a finished import leaves alone

Finishing an import deletes rows of one registrar, with memberships and links that
hang on them, and links its netblocks again.  `Importer.settledTables` writes down
the tables that this leaves; `Framed` says what they have in common with those from
before the import.

* `relink_other`: no netblock of another registrar is unlinked, because it is not
  linked to an organization of this one (`Tables.Linked`).
* `Kind.Grown.outdated`: the netblocks that go are those of the registrar that were
  not reported, not a row more, although new rows may get ids that were in use.

**Main theorem** `Mirrors.framed`.
-/
import NetRegistry.Proofs.Import.Grown
import NetRegistry.Proofs.Store.Linked

namespace NetRegistry

set_option autoImplicit false

open Importer (Begins Delivery Writes)

namespace Importer

variable {i : Importer} {t : Tables}

/-! ## The tables after a finished import -/

/-- The ids of the netblocks that are deleted when the import is finished. -/
def goneNetblocks (i : Importer) (t : Tables) (f : Family) : List RowId :=
  ((t.netblocks.get f).filter ((Kind.netblocks f).outdated i.registrar.id i.serial)).map (·.id)

/-- The ids of the organizations that are deleted. -/
def goneOrgs (i : Importer) (t : Tables) : List RowId :=
  (t.orgs.filter (Kind.orgs.outdated i.registrar.id i.serial)).map (·.id)

/-- The organizations that stay. -/
def keptOrgs (i : Importer) (t : Tables) : List OrgRow :=
  t.orgs.filter (!Kind.orgs.outdated i.registrar.id i.serial ·)

/-- A netblock without its link, if that is to an organization that goes. -/
def unlink (i : Importer) (t : Tables) (n : NetblockRow) : NetblockRow :=
  if n.org.any (i.goneOrgs t).contains then { n with org := none } else n

/-- A netblock of the registrar is linked to the organization that it refers to. -/
def link (i : Importer) (t : Tables) (n : NetblockRow) : NetblockRow :=
  let left : Tables := { t with orgs := i.keptOrgs t }
  if n.registrar == i.registrar.id then
    { n with org := n.reference.bind (Write.orgOfHandle? left i.registrar.id) }
  else n

/-- The tables that finishing the import leaves. -/
def settledTables (now : Nat) (i : Importer) (t : Tables) : Tables :=
  { t with
    registrars := t.registrars.map (Mirrors.stamp i now)
    orgs := i.keptOrgs t
    netblocks := .ofFn fun f =>
      (((t.netblocks.get f).filter
        (!(Kind.netblocks f).outdated i.registrar.id i.serial ·)).map (i.unlink t)).map (i.link t)
    members := .ofFn fun f =>
      (t.members.get f).filter fun m => !(i.goneNetblocks t f).contains m.netblock }

theorem finish_settles {s : Session} {saved : Tables} (opened : s.db = ⟨t, some saved⟩) (now : Nat)
    (i : Importer) :
    ∃ stats v, (finish now i).run s = (.ok stats, v) ∧ v.db = ⟨i.settledTables now t, none⟩ := by
  obtain ⟨_, calls, log⟩ := s
  cases opened
  exact ⟨_, _, rfl, rfl⟩

theorem unlink_place (n : NetblockRow) :
    (i.unlink t n).id = n.id ∧ (i.unlink t n).place = n.place := by
  unfold unlink
  split <;> exact ⟨rfl, rfl⟩

theorem link_place (n : NetblockRow) : (i.link t n).id = n.id ∧ (i.link t n).place = n.place := by
  unfold link
  dsimp only
  split <;> exact ⟨rfl, rfl⟩

theorem relink_place (n : NetblockRow) :
    (i.link t (i.unlink t n)).id = n.id ∧ (i.link t (i.unlink t n)).place = n.place :=
  ⟨(link_place _).1.trans (unlink_place n).1, (link_place _).2.trans (unlink_place n).2⟩

/-- A netblock of another registrar keeps its link. -/
theorem relink_other (linked : t.Linked) {f : Family} {n : NetblockRow}
    (stored : n ∈ t.netblocks.get f) (other : n.registrar ≠ i.registrar.id) :
    i.link t (i.unlink t n) = n := by
  have kept : i.unlink t n = n := by
    refine if_neg fun stale => ?_
    cases link : n.org with
    | none =>
      rw [link] at stale
      cases stale
    | some id =>
      rw [link, Option.any_some, List.contains_iff_mem] at stale
      obtain ⟨gone, outdated, rfl⟩ := List.mem_map.mp stale
      obtain ⟨member, late⟩ := List.mem_filter.mp outdated
      obtain ⟨o, listed, owned⟩ := List.mem_map.mp ((linked.netblocks f).links n stored _ link)
      obtain ⟨sameId, owner⟩ := Prod.mk.inj owned
      -- The organization that goes is the one that the netblock is linked to.
      obtain rfl := eq_of_key linked.orgIds listed member sameId
      have own : (o.registrar == i.registrar.id) = true := (Bool.and_eq_true_iff.mp late).1
      exact other (owner.symm.trans (beq_iff_eq.mp own))
  rw [kept]
  exact if_neg fun own => other (beq_iff_eq.mp own)

/-- Netblocks of other registrars stay and keep their links. -/
theorem netblocks_settledTables_other (linked : t.Linked) (now : Nat) (f : Family) :
    ((i.settledTables now t).netblocks.get f).filter (·.registrar != i.registrar.id) =
      (t.netblocks.get f).filter (·.registrar != i.registrar.id) := by
  have owner : ∀ n, (i.link t (i.unlink t n)).registrar = n.registrar := fun n =>
    congrArg (·.1) (relink_place n).2
  have stays : ∀ n ∈ t.netblocks.get f,
      ((n.registrar != i.registrar.id) &&
        !(Kind.netblocks f).outdated i.registrar.id i.serial n) =
      (n.registrar != i.registrar.id) := by
    intro n _
    show (n.registrar != i.registrar.id && !(n.registrar == i.registrar.id && _)) = _
    by_cases own : n.registrar = i.registrar.id <;> simp [own]
  rw [settledTables, PerFamily.get_ofFn, List.map_map, List.filter_map]
  show List.map _ (List.filter
    (fun n => (i.link t (i.unlink t n)).registrar != i.registrar.id) _) = _
  simp only [owner]
  rw [List.filter_filter, List.filter_congr stays]
  refine (List.map_congr_left fun n member => ?_).trans (List.map_id' _)
  obtain ⟨stored, other⟩ := List.mem_filter.mp member
  exact relink_other linked stored (bne_iff_ne.mp other)

theorem orgs_settledTables_other (now : Nat) :
    (i.settledTables now t).orgs.filter (·.registrar != i.registrar.id) =
      t.orgs.filter (·.registrar != i.registrar.id) := by
  show (i.keptOrgs t).filter _ = _
  rw [keptOrgs, List.filter_filter]
  refine List.filter_congr fun o _ => ?_
  show (o.registrar != i.registrar.id && !(o.registrar == i.registrar.id && _)) = _
  by_cases own : o.registrar = i.registrar.id <;> simp [own]

end Importer

/-! ## Before and after -/

/-- The ids of the netblocks of a registrar that a delivery does not report. -/
def Tables.unreported (t : Tables) (f : Family) (registrar : RowId) (d : Delivery) : List RowId :=
  ((t.netblocks.get f).filter fun n =>
    n.registrar == registrar && !d.hasNetblock f (n.first, n.last)).map (·.id)

/-- What the tables after a finished import of a registrar have in common with those from before
it, by what the import has delivered. -/
structure Framed (name : String) (registrar : RowId) (d : Delivery) (t u : Tables) : Prop where
  registrars : u.registrars.filter (·.name != name) = t.registrars.filter (·.name != name)
  /-- Organizations of other registrars are the same rows. -/
  orgs : u.orgs.filter (·.registrar != registrar) = t.orgs.filter (·.registrar != registrar)
  /-- So are netblocks, down to their links. -/
  netblocks : ∀ f, (u.netblocks.get f).filter (·.registrar != registrar) =
    (t.netblocks.get f).filter (·.registrar != registrar)
  lists : u.lists = t.lists
  unions : u.unions = t.unions
  coverage : u.coverage = t.coverage
  /-- An organization that was reported again keeps its id. -/
  orgIds : ∀ o ∈ t.orgs, o.registrar = registrar → d.hasOrg o.handle = true →
    (u.orgs.filter fun p => p.registrar = registrar ∧ p.handle = o.handle).map (·.id) = [o.id]
  /-- So does a netblock. -/
  netblockIds : ∀ f, ∀ n ∈ t.netblocks.get f, n.registrar = registrar →
    d.hasNetblock f (n.first, n.last) = true →
    ((u.netblocks.get f).filter fun m =>
      m.registrar = registrar ∧ (m.first, m.last) = (n.first, n.last)).map (·.id) = [n.id]
  /-- The memberships that go are those of netblocks that were not reported again. -/
  members : ∀ f, u.members.get f =
    (t.members.get f).filter fun m => !(t.unreported f registrar d).contains m.netblock

namespace Mirrors

variable {saved base t u : Tables} {finished later : String → List Delivery} {name : String}
  {i : Importer} {row : RegistrarRow} {d : Delivery} {now : Nat}

section Kind

variable {α κ : Type} [DecidableEq κ] {K : Kind α κ} {rows : List α}

/-- Rows that mirror a delivery carry the serial of their registrar. -/
theorem serial_of_mem (shows : K.Shows rows (K.mirrored t finished))
    (written : ∀ r, K.serial (K.written r) = K.serial r) {r : α} (member : r ∈ rows) :
    ∃ row, t.registrar? (K.owner r) = some row ∧ K.serial r = row.serial := by
  obtain ⟨row, found, bound⟩ := Option.bind_eq_some_iff.mp (shows.of_mem member).2
  obtain ⟨d, -, asked⟩ := Option.bind_eq_some_iff.mp bound
  exact ⟨row, found, (written r).symm.trans (K.stamped _ _ _ _ _ asked)⟩

/-- Rows of the registrar from before an import carry an earlier serial. -/
theorem serial_ne (enrolled : Enrolled saved base row) (begins : i.Begins row)
    (shows : K.Shows rows (K.mirrored saved finished))
    (written : ∀ r, K.serial (K.written r) = K.serial r) :
    ∀ r ∈ rows, K.owner r = i.registrar.id → K.serial r ≠ i.serial := by
  intro r member own
  obtain ⟨row', found, serial⟩ := serial_of_mem shows written member
  rw [own, begins.id] at found
  rw [serial, enrolled.same row' found, begins.serial]
  omega

/-- The row under an owner and a key, told by its id. -/
theorem ids_of_mem (shows : K.Shows rows (K.mirrored t finished)) {r : α} (member : r ∈ rows)
    {g : RowId} {k : κ} {id : α → RowId} {n : RowId} (owner : K.owner r = g) (key : K.key r = k)
    (known : id r = n) : (rows.filter fun s => K.owner s = g ∧ K.key s = k).map id = [n] := by
  have only := (shows.of_mem member).1
  rw [Keying.has_eq_decide, owner, key] at only
  rw [only, List.map_singleton, known]

end Kind

/-- Other registrars keep their rows. -/
theorem registrars_stamped (enrolled : Enrolled saved base row) (named : row.name = name)
    (own : i.registrar.id = row.id) (registrars : u.registrars = base.registrars.map (stamp i now)) :
    u.registrars.filter (·.name != name) = base.registrars.filter (·.name != name) := by
  rw [registrars, List.filter_map]
  show (base.registrars.filter fun r => (stamp i now r).name != name).map _ = _
  simp only [stamp_name]
  refine (List.map_congr_left fun r member => ?_).trans (List.map_id' _)
  obtain ⟨listed, other⟩ := List.mem_filter.mp member
  refine stamp_other fun same => bne_iff_ne.mp other ?_
  rw [enrolled.eq_row listed (same.trans own), named]

theorem registrars_registered (t : Tables) (name : String) :
    (t.registered name).2.registrars.filter (·.name != name) =
      t.registrars.filter (·.name != name) := by
  unfold Tables.registered
  split
  · rfl
  · rw [List.filter_append]
    simp

/-- **The frame of a finished import.** -/
theorem framed (mirrors : Mirrors saved finished) (begins : i.Begins (saved.registered name).1)
    (writes : Writes i.registrar.id i.serial (saved.registered name).2 .empty t d)
    (linked : t.Linked) (after : Mirrors (i.settledTables now t) later) :
    Framed name i.registrar.id d saved (i.settledTables now t) := by
  obtain ⟨enrolled, named, -⟩ := mirrors.enrolled name
  have frame := writes.frame
  obtain ⟨members, coverage⟩ := writes.lists_kept
  have base := Tables.registered_eq saved name
  have orgs := enrolled.orgs ▸ writes.grown_orgs rfl
  have netblocks := fun f => enrolled.netblocks ▸ writes.grown_netblocks rfl f
  refine ⟨?_, ?_, ?_, ?_, ?_, ?_, ?_, ?_, ?_⟩
  · have stamped : (i.settledTables now t).registrars =
        (saved.registered name).2.registrars.map (stamp i now) := by rw [← frame.registrars]; rfl
    rw [registrars_stamped enrolled named begins.id stamped, registrars_registered]
  · rw [Importer.orgs_settledTables_other]
    exact orgs.others
  · intro f
    rw [Importer.netblocks_settledTables_other linked]
    exact (netblocks f).others
  · rw [show (i.settledTables now t).lists = t.lists from rfl, frame.lists, base]
  · rw [show (i.settledTables now t).unions = t.unions from rfl, frame.unions, base]
  · rw [show (i.settledTables now t).coverage = t.coverage from rfl, coverage, base]
  · intro o stored own again
    obtain ⟨s, kept, id, owner, key⟩ := orgs.kept stored own again
    exact ids_of_mem after.orgs kept owner key id
  · intro f n stored own again
    obtain ⟨s, kept, id, owner, key⟩ := (netblocks f).kept stored own again
    have relinked : i.link t (i.unlink t s) ∈ (i.settledTables now t).netblocks.get f := by
      rw [Importer.settledTables, PerFamily.get_ofFn]
      exact List.mem_map_of_mem (List.mem_map_of_mem kept)
    obtain ⟨sameId, samePlace⟩ := Importer.relink_place s
    obtain ⟨sameOwner, sameKey⟩ := Prod.mk.inj samePlace
    exact ids_of_mem (after.netblocks f) relinked (sameOwner.trans owner) (sameKey.trans key)
      (sameId.trans id)
  · intro f
    have old := serial_ne enrolled begins (mirrors.netblocks f) fun _ => rfl
    have gone : i.goneNetblocks t f = saved.unreported f i.registrar.id d :=
      (netblocks f).outdated old
    rw [Importer.settledTables, PerFamily.get_ofFn, gone, members, base]

end Mirrors

end NetRegistry
