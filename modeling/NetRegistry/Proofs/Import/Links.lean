/-
# Proofs.Import.Links -- netblocks and the organizations that they refer to

A netblock names an organization by its handle, and is linked to one by its id.
Only finishing an import makes links, and only those of its registrar
(`Importer.link`); what keeps the others right is that no import touches an
organization of another registrar.

* `Tables.Resolves.exact`: a link that was resolved from the handle is to the one
  organization of the registrar with that handle, or to none.
* `Importer.Writes.others_resolve`: inserts leave the links of other registrars
  resolved.
* `Importer.settledTables_resolve`: when the import is finished every link is
  resolved again.
-/
import NetRegistry.Proofs.Import.Frame

namespace NetRegistry

set_option autoImplicit false

open Importer (Delivery)

/-- The registrar of an organization with its handle. -/
def OrgRow.place (o : OrgRow) : RowId × String := (o.registrar, o.handle)

namespace Tables

variable {t u : Tables} {f : Family} {n : NetblockRow} {g : RowId}

/-! ## Handles -/

/-- No registrar has two organizations of one handle. -/
def PlacedOnce (t : Tables) : Prop := (t.orgs.map OrgRow.place).Nodup

theorem PlacedOnce.writeOrg {registrar : RowId} {serial : Nat} {o : OrgRecord} {new : Bool}
    (once : t.PlacedOnce) (run : Write.writeOrg registrar serial o t = .ok (new, u)) :
    u.PlacedOnce := by
  unfold PlacedOnce at once ⊢
  rcases Write.writeOrg_cases run with ⟨-, rfl⟩ | ⟨missing, -, rfl⟩
  · dsimp only
    rw [map_map_of_same OrgRow.place]
    · exact once
    · intro r
      split <;> rfl
  · dsimp only
    rw [List.map_append, List.map_singleton]
    refine List.nodup_append.mpr ⟨once, List.pairwise_singleton _ _, ?_⟩
    rintro place taken _ new rfl
    obtain ⟨r, member, same⟩ := List.mem_map.mp taken
    rw [List.mem_singleton.mp new] at same
    obtain ⟨owner, handle⟩ := Prod.mk.inj same
    have there := List.any_eq_false.mp missing r member
    simp [Write.isOrg, owner, handle] at there

theorem PlacedOnce.step (once : t.PlacedOnce) (step : t.Step u) : u.PlacedOnce := by
  cases step with
  | writeOrg run => exact once.writeOrg run
  | sweepOrgs run =>
    obtain ⟨-, rfl⟩ := Prod.mk.inj (Except.ok.inj run)
    exact once.sublist (List.filter_sublist.map _)
  | writeNetblock _ run =>
    obtain ⟨_, rfl⟩ := Write.writeNetblock_frame run
    exact once
  | ensureList run =>
    obtain ⟨_, rfl⟩ := Write.ensureList_frame run
    exact once
  | populate run =>
    obtain ⟨_, rfl⟩ := Write.populate_frame run
    exact once
  | insertUnionBlock run =>
    obtain ⟨_, rfl⟩ := Write.insertUnionBlock_frame run
    exact once
  | insertCoverageBlock run =>
    obtain ⟨_, rfl⟩ := Write.insertCoverageBlock_frame run
    exact once
  | insertRegistrar _ run | sweepNetblocks run | linkNetblocks run | recordImport run
    | clearList run | clearCoverage run =>
    obtain ⟨-, rfl⟩ := Prod.mk.inj (Except.ok.inj run)
    exact once

/-! ## Links -/

/-- The link of a netblock is what its registrar has under the handle that it refers to. -/
def Resolves (t : Tables) (n : NetblockRow) : Prop :=
  n.org = n.reference.bind (Write.orgOfHandle? t n.registrar)

/-- A netblock is linked to the organization of its registrar whose handle it refers to, when that is
stored, and to none otherwise. -/
structure LinksExactly (t : Tables) (n : NetblockRow) : Prop where
  linked : ∀ o ∈ t.orgs,
    n.org = some o.id ↔ o.registrar = n.registrar ∧ n.reference = some o.handle
  unlinked : (∀ o ∈ t.orgs, ¬ (o.registrar = n.registrar ∧ n.reference = some o.handle)) →
    n.org = none

theorem orgOfHandle?_eq_some_iff (once : t.PlacedOnce) {handle : String} {id : RowId} :
    Write.orgOfHandle? t g handle = some id ↔
      ∃ o ∈ t.orgs, o.registrar = g ∧ o.handle = handle ∧ o.id = id := by
  constructor
  · intro found
    obtain ⟨o, named, rfl⟩ := Option.map_eq_some_iff.mp found
    have matched := List.find?_some named
    rw [Bool.and_eq_true, beq_iff_eq, beq_iff_eq] at matched
    exact ⟨o, List.mem_of_find?_eq_some named, matched.1, matched.2, rfl⟩
  · rintro ⟨o, member, rfl, rfl, rfl⟩
    exact congrArg (Option.map (·.id)) (find?_key once member)

theorem Resolves.exact (resolves : t.Resolves n) (once : t.PlacedOnce)
    (ids : (t.orgs.map (·.id)).Nodup) : t.LinksExactly n := by
  constructor
  · intro o member
    rw [resolves, Option.bind_eq_some_iff]
    constructor
    · rintro ⟨handle, refers, found⟩
      obtain ⟨p, stored, owner, rfl, sameId⟩ := (orgOfHandle?_eq_some_iff once).mp found
      obtain rfl := eq_of_key ids stored member sameId
      exact ⟨owner, refers⟩
    · rintro ⟨owner, refers⟩
      exact ⟨o.handle, refers, (orgOfHandle?_eq_some_iff once).mpr ⟨o, member, owner, rfl, rfl⟩⟩
  · intro unknown
    rw [resolves, Option.bind_eq_none_iff]
    intro handle refers
    refine Option.eq_none_iff_forall_ne_some.mpr fun id found => ?_
    obtain ⟨o, member, owner, rfl, -⟩ := (orgOfHandle?_eq_some_iff once).mp found
    exact unknown o member ⟨owner, refers⟩

/-- The organization that is found through an exact link. -/
theorem LinksExactly.orgOf?_eq_some_iff (exact : t.LinksExactly n)
    (ids : (t.orgs.map (·.id)).Nodup) {o : OrgRow} :
    t.orgOf? n = some o ↔
      o ∈ t.orgs ∧ o.registrar = n.registrar ∧ n.reference = some o.handle := by
  rw [orgOf?, Option.bind_eq_some_iff]
  constructor
  · rintro ⟨id, link, found⟩
    have member := List.mem_of_find?_eq_some found
    have same : o.id = id := by simpa using List.find?_some found
    exact ⟨member, (exact.linked o member).mp (same ▸ link)⟩
  · rintro ⟨member, refers⟩
    exact ⟨o.id, (exact.linked o member).mpr refers, find?_key ids member⟩

/-- The links of all netblocks are resolved. -/
def AllResolve (t : Tables) : Prop := ∀ f, ∀ n ∈ t.netblocks.get f, t.Resolves n

/-- So are at least those of other registrars. -/
def OthersResolve (t : Tables) (g : RowId) : Prop :=
  ∀ f, ∀ n ∈ t.netblocks.get f, n.registrar ≠ g → t.Resolves n

theorem AllResolve.empty : Tables.empty.AllResolve := by
  intro f n member
  cases f <;> cases member

theorem AllResolve.congr (resolve : t.AllResolve) (orgs : u.orgs = t.orgs)
    (netblocks : u.netblocks = t.netblocks) : u.AllResolve := by
  intro f n member
  rw [netblocks] at member
  have resolved := resolve f n member
  unfold Resolves Write.orgOfHandle? at resolved ⊢
  rw [orgs]
  exact resolved

/-- What a registrar has under a handle is told without the organizations of another one. -/
theorem orgOfHandle?_of_others (same : u.orgs.filter (·.registrar != g) =
    t.orgs.filter (·.registrar != g)) {h : RowId} (other : h ≠ g) :
    Write.orgOfHandle? u h = Write.orgOfHandle? t h := by
  funext handle
  have told : ∀ orgs : List OrgRow,
      orgs.find? (fun o => o.registrar == h && o.handle == handle) =
        (orgs.filter (·.registrar != g)).find? fun o => o.registrar == h && o.handle == handle := by
    intro orgs
    rw [List.find?_filter]
    congr 1
    funext o
    rw [Bool.eq_iff_iff]
    by_cases owner : o.registrar = h
    · simp [owner, other]
    · simp [owner]
  unfold Write.orgOfHandle?
  rw [told u.orgs, told t.orgs, same]

theorem OthersResolve.congr (resolve : t.OthersResolve g)
    (orgs : u.orgs.filter (·.registrar != g) = t.orgs.filter (·.registrar != g))
    (netblocks : ∀ f, (u.netblocks.get f).filter (·.registrar != g) =
      (t.netblocks.get f).filter (·.registrar != g)) : u.OthersResolve g := by
  intro f n stored other
  have inside : n ∈ (t.netblocks.get f).filter (·.registrar != g) := by
    rw [← netblocks f]
    exact List.mem_filter.mpr ⟨stored, bne_iff_ne.mpr other⟩
  unfold Resolves
  rw [orgOfHandle?_of_others orgs other]
  exact resolve f n (List.mem_filter.mp inside).1 other

end Tables

theorem Database.Reachable.placedOnce {db : Database} (reached : db.Reachable) :
    db.tables.PlacedOnce :=
  (reached.invariant List.nodup_nil fun _ _ once step => once.step step).1

namespace Importer

variable {t u : Tables} {registrar : RowId} {serial : Nat} {d : Delivery} {i : Importer}

/-- Inserts leave the links of other registrars resolved. -/
theorem Writes.others_resolve (writes : Writes registrar serial t .empty u d)
    (resolve : t.OthersResolve registrar) : u.OthersResolve registrar :=
  resolve.congr (writes.grown_orgs rfl).others fun f => (writes.grown_netblocks rfl f).others

/-- **Finishing an import** resolves the links of its registrar, and leaves the others resolved. -/
theorem settledTables_resolve (linked : t.Linked) (resolve : t.OthersResolve i.registrar.id)
    (now : Nat) : (i.settledTables now t).AllResolve := by
  intro f n stored
  by_cases own : n.registrar = i.registrar.id
  · rw [settledTables, PerFamily.get_ofFn] at stored
    obtain ⟨m, -, rfl⟩ := List.mem_map.mp stored
    have owner : m.registrar = i.registrar.id := (congrArg (·.1) (link_place m).2).symm.trans own
    have linked : i.link t m = { m with
        org := m.reference.bind
          (Write.orgOfHandle? { t with orgs := i.keptOrgs t } i.registrar.id) } :=
      if_pos (beq_iff_eq.mpr owner)
    unfold Tables.Resolves
    rw [linked]
    dsimp only
    rw [owner]
    rfl
  · have others := resolve.congr (orgs_settledTables_other now)
      (netblocks_settledTables_other linked now)
    exact others f n stored own

end Importer

end NetRegistry
