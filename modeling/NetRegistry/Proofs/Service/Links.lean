/-
# Proofs.Service.Links -- every netblock is linked to its organization

Between imports every netblock is linked to the organization of its registrar whose
handle it refers to, whatever imports were finished or given up before and
whatever became of rebuilds.  Under an open import that holds of the tables to go
back to, and of the netblocks of other registrars (`Linking`).

A rebuild whose rollback fails leaves its transaction open, and every later import
is refused.  That state is one of its own (`Linking.stuck`), and rebuilds do not
write what links depend on (`Imported`).

**Main theorem** `links_exact`.
-/
import NetRegistry.Proofs.Import.Links
import NetRegistry.Proofs.Service.Frame
import NetRegistry.Proofs.Service.Lookup

namespace NetRegistry

set_option autoImplicit false

open Fallible (Keeps)
open Importer (Known)

/-- The request is one of an import or a rebuild, whatever fails in it. -/
def Event.Ordinary (e : Event) : Prop :=
  (e.request.beginsImport || e.request.isInsert || e.request.endsImport || e.request.isRebuild) =
    true

theorem Event.Ordinary.visible {e : Event} (ordinary : e.Ordinary) :
    e.request.isPublic = true := by
  obtain ⟨r⟩ := e
  cases r <;> first | rfl | exact Bool.noConfusion ordinary

/-! ## Rebuilds -/

/-- The statements of rebuilds do not change what imports write. -/
theorem Tables.RebuildStep.sameImports {t u : Tables} (step : t.RebuildStep u) :
    t.SameImports u := by
  cases step with
  | ensureList run =>
    obtain ⟨_, rfl⟩ := Write.ensureList_frame run
    exact ⟨rfl, rfl, rfl⟩
  | populate run =>
    obtain ⟨_, rfl⟩ := Write.populate_frame run
    exact ⟨rfl, rfl, rfl⟩
  | insertUnionBlock run =>
    obtain ⟨_, rfl⟩ := Write.insertUnionBlock_frame run
    exact ⟨rfl, rfl, rfl⟩
  | insertCoverageBlock run =>
    obtain ⟨_, rfl⟩ := Write.insertCoverageBlock_frame run
    exact ⟨rfl, rfl, rfl⟩
  | clearList run | clearCoverage run =>
    obtain ⟨-, rfl⟩ := Prod.mk.inj (Except.ok.inj run)
    exact ⟨rfl, rfl, rfl⟩

/-- What imports write is as in the given tables, now and when the transaction is rolled back. -/
structure Imported (t : Tables) (db : Database) : Prop where
  current : t.SameImports db.tables
  saved : ∀ u ∈ db.saved, t.SameImports u

namespace Imported

theorem lasting (t : Tables) : Database.Lasting (Imported t) := by
  refine ⟨?_, ?_, ?_, ?_⟩
  · intro u v saved rebuild imported
    exact ⟨imported.current.trans rebuild.sameImports, imported.saved⟩
  · refine Keeps.of_run fun ⟨u, saved⟩ imported => ?_
    cases saved with
    | none =>
      refine ⟨imported.current, fun v back => ?_⟩
      obtain rfl := Option.some.inj back
      exact imported.current
    | some v => exact imported
  · refine Keeps.of_run fun ⟨u, saved⟩ imported => ?_
    cases saved with
    | none => exact imported
    | some v => exact ⟨imported.current, fun w back => by cases back⟩
  · refine Keeps.of_run fun ⟨u, saved⟩ imported => ?_
    cases saved with
    | none => exact imported
    | some v => exact ⟨imported.saved v rfl, fun w back => by cases back⟩

end Imported

namespace Service

variable {α : Type} {r : Request α} {s u : Service} {t : Tables}

/-- Whatever fails in it, a rebuild without an import leaves what imports write. -/
theorem rebuild_imported (rebuild : r.isRebuild = true) (t : Tables) :
    (handle r ⟨⟨t, none⟩, none⟩).2.importer = none ∧
      Imported t (handle r ⟨⟨t, none⟩, none⟩).2.db := by
  have keeps : Keeps (Holds false (Imported t)) (work r) :=
    keeps_rebuild (Imported.lasting t) r rebuild
  have start : Imported t ⟨t, none⟩ := ⟨.refl t, fun u back => by cases back⟩
  obtain ⟨free, imported⟩ := keeps.run (s := (none, .on ⟨t, none⟩)) ⟨rfl, start⟩
  exact ⟨Option.isNone_iff_eq_none.mp (Option.isSome_eq_false_iff.mp free), imported⟩

/-! ## One request -/

/-- Which links are resolved, by what is open. -/
inductive Linking : Service → Prop
  | closed {t : Tables} (resolve : t.AllResolve) : Linking ⟨⟨t, none⟩, none⟩
  | importing {t saved : Tables} {i : Importer} (known : i.Known t) (resolve : saved.AllResolve)
      (others : t.OthersResolve i.registrar.id) : Linking ⟨⟨t, some saved⟩, some i⟩
  /-- A rebuild could not roll back. -/
  | stuck {t saved : Tables} (resolve : t.AllResolve) : Linking ⟨⟨t, some saved⟩, none⟩

theorem begins_others {name : String} (resolve : t.AllResolve) (g : RowId) :
    (t.registered name).2.OthersResolve g := by
  have registered : (t.registered name).2.AllResolve := by
    refine resolve.congr ?_ ?_ <;> rw [Tables.registered_eq]
  exact fun f n stored _ => registered f n stored

theorem Moves.linking {a : Except Failure α} (moves : Moves r a s u) (after : (handle r s).2 = u)
    (linked : s.db.tables.Linked) (linking : s.Linking) : u.Linking := by
  cases moves with
  | refused => exact linking
  | nothing => exact linking
  | @began name t i begins =>
    cases linking with
    | closed resolve =>
      exact .importing (known_registered t name begins) resolve (begins_others resolve _)
  | wrote insert continues writes =>
    cases linking with
    | importing known resolve others =>
      refine .importing (known.goesOn continues (writes .empty)) resolve ?_
      rw [continues.registrar]
      exact (writes .empty).others_resolve others
  | @finished now t u saved i settled =>
    cases linking with
    | importing known resolve others =>
      have state := (finish_handled (s := ⟨⟨t, some saved⟩, some i⟩) rfl now).2
      rw [← after, state]
      exact .closed (Importer.settledTables_resolve linked others now)
  | aborted =>
    cases linking with
    | importing known resolve => exact .closed resolve
  | dropped =>
    cases linking with
    | importing known resolve => exact .closed resolve
  | rebuilt rebuild passed =>
    cases linking with
    | closed resolve => exact .closed (resolve.congr passed.imports.orgs passed.imports.netblocks)

theorem rebuild_linking (rebuild : r.isRebuild = true) (linking : s.Linking) :
    (handle r s).2.Linking := by
  have foreign : (r.isRebuild || r.beginsImport) = true := by rw [rebuild, Bool.true_or]
  cases linking with
  | @closed t resolve =>
    obtain ⟨free, imported⟩ := rebuild_imported rebuild t
    have resolve' := resolve.congr imported.current.orgs imported.current.netblocks
    obtain ⟨⟨⟨u, _ | saved⟩, _⟩, after⟩ : ∃ v, (handle r ⟨⟨t, none⟩, none⟩).2 = v := ⟨_, rfl⟩
    all_goals
      rw [after] at free resolve' ⊢
      cases free
    · exact .closed resolve'
    · exact .stuck resolve'
  | importing known resolve others =>
    rw [(handle_barred rfl foreign).same]
    exact .importing known resolve others
  | stuck resolve =>
    rw [(handle_barred rfl foreign).same]
    exact .stuck resolve

/-- While a transaction is left open without an import, a request of an import is refused. -/
theorem stuck_moves {saved : Tables} (kind : (r.beginsImport || r.isInsert || r.endsImport) = true) :
    Moves r (answer r ⟨⟨t, some saved⟩, none⟩) ⟨⟨t, some saved⟩, none⟩
      (handle r ⟨⟨t, some saved⟩, none⟩).2 := by
  cases r with
  | beginImport name =>
    have barred := handle_barred (s := ⟨⟨t, some saved⟩, none⟩) (r := .beginImport name) rfl rfl
    rw [barred.same]
    exact .refused barred.refused rfl
  | insertOrg _ | insertNetblock _ _ _ | insertRange _ _ _ => exact insert_refused rfl _
  | finishImport _ | abortImport | dropImport => exact end_nothing rfl _
  | _ => exact Bool.noConfusion kind

theorem Linking.step (linking : s.Linking) (sound : s.db.tables.Sound) (linked : s.db.tables.Linked)
    {e : Event} (ordinary : e.Ordinary) : (handle e.request s).2.Linking := by
  by_cases rebuild : e.request.isRebuild = true
  · exact rebuild_linking rebuild linking
  · have kind := ordinary
    rw [Event.Ordinary, Bool.eq_false_iff.mpr rebuild, Bool.or_false] at kind
    have routine : e.Routine := by
      refine ⟨ordinary, ?_⟩
      obtain ⟨r⟩ := e
      cases r <;> first | exact fun _ => rfl | exact absurd rfl rebuild
    have moves : Moves e.request (answer e.request s) s (handle e.request s).2 := by
      cases linking with
      | closed =>
        exact Service.moves (s := ⟨⟨_, none⟩, none⟩) rfl (fun i held => by cases held) sound routine
      | importing known =>
        refine Service.moves (s := ⟨⟨_, some _⟩, some _⟩) rfl (fun i held => ?_) sound routine
        obtain rfl := Option.some.inj held
        exact known
      | stuck => exact stuck_moves kind
    exact moves.linking rfl linked linking

/-! ## Histories -/

theorem linking_after {history : List Event} (ordinary : ∀ e ∈ history, e.Ordinary) :
    (empty.after history).Linking := by
  induction history with
  | nil => exact .closed .empty
  | cons e past ih =>
    have earlier := fun d member => ordinary d (List.mem_cons_of_mem _ member)
    have reached := (reachable_after fun d member => (earlier d member).visible).database
    exact (ih earlier).step reached.sound.1 reached.linked.1 (ordinary e List.mem_cons_self)

end Service

/-! ## What lookups tell -/

/-- Every netblock is linked to the one organization of its registrar that it refers to, or to
none. -/
structure Tables.OrgLinks (t : Tables) : Prop where
  ids : (t.orgs.map (·.id)).Nodup
  places : t.PlacedOnce
  exact : ∀ f, ∀ n ∈ t.netblocks.get f, t.LinksExactly n

/-- What is told of the organization of a netblock: the handle that it refers to, and the name that is
stored under it. -/
structure NetblockInfo.Refers {f : Family} (info : NetblockInfo f) (t : Tables) (n : NetblockRow) :
    Prop where
  id : info.id = n.id
  orgHandle : info.orgHandle = n.reference
  orgName : ∀ name, info.orgName = some name ↔
    ∃ o ∈ t.orgs, o.registrar = n.registrar ∧ n.reference = some o.handle ∧ o.name = name

theorem Tables.OrgLinks.refers {t : Tables} (links : t.OrgLinks) {f : Family} {n : NetblockRow}
    (stored : n ∈ t.netblocks.get f) {info : NetblockInfo f} (describes : info.Describes t n) :
    info.Refers t n := by
  have found := fun {o} => (links.exact f n stored).orgOf?_eq_some_iff links.ids (o := o)
  refine ⟨describes.id, ?_, fun name => ?_⟩
  · rw [describes.orgHandle]
    cases org : t.orgOf? n with
    | none => rfl
    | some o => exact (found.mp org).2.2.symm
  · rw [describes.orgName, Option.map_eq_some_iff]
    constructor
    · rintro ⟨o, org, named⟩
      obtain ⟨member, owner, refers⟩ := found.mp org
      exact ⟨o, member, owner, refers, named⟩
    · rintro ⟨o, member, owner, refers, named⟩
      exact ⟨o, found.mpr ⟨member, owner, refers⟩, named⟩

namespace Service

/-- **Links to organizations are exact.** When no import is open, whatever imports were finished or
given up and whatever failed in rebuilds, every netblock is linked to the organization of its
registrar whose handle it refers to, if that is stored, and to none otherwise; and lookups tell so. -/
theorem links_exact {history : List Event} (ordinary : ∀ e ∈ history, e.Ordinary)
    (closed : (empty.after history).importer = none) :
    (empty.after history).db.tables.OrgLinks ∧
      ∀ (f : Family) (a : Addr f), ∃ found,
        answer (.lookup a) (empty.after history) = .ok found ∧
        (found.isSome = true ↔ ∃ n r, (empty.after history).db.tables.Holding f a n r) ∧
        ∀ info ∈ found, ∃ n, (empty.after history).db.tables.Holding f a n info.range ∧
          info.Refers (empty.after history).db.tables n := by
  have reached := (reachable_after fun e member => (ordinary e member).visible).database
  have linked := reached.linked.1
  have resolve : (empty.after history).db.tables.AllResolve := by
    have linking := linking_after ordinary
    generalize empty.after history = s at linking closed
    cases linking with
    | closed resolve => exact resolve
    | stuck resolve => exact resolve
    | importing => cases closed
  have links : (empty.after history).db.tables.OrgLinks :=
    ⟨linked.orgIds, reached.placedOnce, fun f n stored =>
      (resolve f n stored).exact reached.placedOnce linked.orgIds⟩
  refine ⟨links, fun f a => ?_⟩
  obtain ⟨found, lookup, some, longest⟩ := Tables.exists_lookup reached.sound.1 linked f a
  refine ⟨found, ?_, some, fun info told => ?_⟩
  · show (((empty.after history).db.tables.lookup f a).mapError Error.storage).mapError
      Failure.error = _
    rw [lookup]
    rfl
  · obtain ⟨n, holding, describes⟩ := (longest info told).found
    exact ⟨n, holding, links.refers holding.stored describes⟩

/-- Another registrar refers to an organization that only the first one has, and gives up an import that
would have added its own. -/
def otherRefers : List Event :=
  [⟨.abortImport⟩, ⟨.insertOrg ⟨"ORG", "Somebody else", ""⟩⟩, ⟨.beginImport "OTHER"⟩, ⟨.finishImport 8⟩,
    ⟨.insertNetblock .v6 (.range (.wrap .v6 16) (.wrap .v6 31) 124) ⟨some "ORG", "C", ""⟩⟩,
    ⟨.beginImport "OTHER"⟩] ++ firstImport

/-- The first one replaces its organization and refers to the old and to the new one; then a rebuild
fails and cannot roll back. -/
def replaced : List Event :=
  [⟨.rebuildCoverage (.ofList [(.clearCoverage, 0), (.rollback, 0)])⟩, ⟨.finishImport 9⟩,
    ⟨.insertOrg ⟨"NEW", "A new organization", ""⟩⟩,
    ⟨.insertNetblock .v4 (.range (.wrap .v4 8) (.wrap .v4 15) 29) ⟨some "NEW", "D", ""⟩⟩,
    ⟨.insertNetblock .v4 (.range (.wrap .v4 0) (.wrap .v4 255) 24) ⟨some "ORG", "A", ""⟩⟩,
    ⟨.beginImport "TEST"⟩] ++ otherRefers

theorem links_exact_replaced :
    (∀ e ∈ replaced, e.Ordinary) ∧ (empty.after replaced).importer = none ∧
      (empty.after replaced).db.inTransaction = true ∧
      (empty.after replaced).db.tables.OrgLinks ∧
      answer (.lookup (Addr.wrap .v4 77)) (empty.after replaced) =
        .ok (some ⟨1, "TEST", some "ORG", none, .wrap .v4 0, .wrap .v4 255, 24, "A", ""⟩) ∧
      answer (.lookup (Addr.wrap .v4 9)) (empty.after replaced) =
        .ok (some ⟨2, "TEST", some "NEW", some "A new organization", .wrap .v4 8, .wrap .v4 15, 29, "D",
          ""⟩) := by
  have ordinary : ∀ e ∈ replaced, e.Ordinary := by
    intro e member
    simp only [replaced, otherRefers, firstImport, List.mem_cons, List.mem_append, List.not_mem_nil,
      or_false] at member
    rcases member with ((rfl | rfl | rfl | rfl | rfl | rfl) | (rfl | rfl | rfl | rfl | rfl | rfl) |
      rfl | rfl | rfl | rfl | rfl) <;> rfl
  obtain ⟨links, -⟩ := links_exact ordinary rfl
  exact ⟨ordinary, rfl, rfl, links, rfl, rfl⟩

end Service

end NetRegistry
