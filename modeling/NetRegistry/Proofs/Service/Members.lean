/-
# Proofs.Service.Members -- memberships never dangle

A membership names a stored netblock and copies its addresses and its prefix length,
in every state that public operations lead to (`Tables.MembersExact`).  So deleting
a netblock leaves nothing behind that its id could lead to, and a netblock that gets
the id later starts without memberships.

* `Tables.unlisted_until_chosen`: a row id that is not in use stays without
  memberships, whatever statements are carried out, until a population selects the
  netblock that has the id by then.
* `inserts_members`: an open import leaves memberships alone, so the netblocks that
  it adds have none.

**Main theorem** `members_exact`.
-/
import Mathlib.Logic.Relation
import NetRegistry.Proofs.Rebuild.Members
import NetRegistry.Proofs.Service.History
import NetRegistry.Proofs.Store.Linked

namespace NetRegistry

set_option autoImplicit false

open Fallible (Keeps)

namespace Tables

variable {t u : Tables} {f : Family} {k : RowId}

/-! ## Copies -/

/-- Every membership names one stored netblock, of which it copies the addresses and the prefix
length, and no netblock is in a list twice. -/
structure MembersExact (t : Tables) : Prop where
  stored : ∀ f, ∀ m ∈ t.members.get f, ∃ n ∈ t.netblocks.get f,
    (n.id = m.netblock ∧ ∀ other ∈ t.netblocks.get f, other.id = m.netblock → other = n) ∧
      m.first = n.first ∧ m.last = n.last ∧ m.prefixLen = n.prefixLen
  once : ∀ f, ((t.members.get f).map fun m => (m.list, m.netblock)).Nodup

theorem Backed.exact (backed : t.Backed) (sound : t.Sound) : t.MembersExact := by
  refine ⟨fun f m member => ?_, fun f => (backed f).once⟩
  obtain ⟨n, stored, copy⟩ := (backed f).copies m member
  refine ⟨n, stored, ⟨congrArg (·.netblock) copy, fun other there same => ?_⟩,
    congrArg (·.first) copy.symm, congrArg (·.last) copy.symm, congrArg (·.prefixLen) copy.symm⟩
  exact eq_of_key (sound.netblocks f).ids there stored (same.trans (congrArg (·.netblock) copy).symm)

/-! ## Row ids that are given out again -/

/-- No netblock has the id. -/
def Unused (t : Tables) (f : Family) (k : RowId) : Prop := ∀ n ∈ t.netblocks.get f, n.id ≠ k

/-- No membership names the id. -/
def Unlisted (t : Tables) (f : Family) (k : RowId) : Prop := ∀ m ∈ t.members.get f, m.netblock ≠ k

theorem MembersExact.unlisted (exact : t.MembersExact) (unused : t.Unused f k) :
    t.Unlisted f k := by
  intro m member same
  obtain ⟨n, stored, ⟨named, -⟩, -⟩ := exact.stored f m member
  exact unused n stored (named.trans same)

/-- A statement that puts no netblock with that id into a list. -/
structure StepPast (f : Family) (k : RowId) (t u : Tables) : Prop where
  step : t.Step u
  past : ∀ list p added, Write.populate f list p t = .ok (added, u) →
    ∀ n ∈ t.netblocks.get f, Write.selects t p n = true → n.id ≠ k

/-- The memberships of a family may change, as long as no new one names the id. -/
theorem Unlisted.set_members (unlisted : t.Unlisted f k) {g : Family} {members : List MemberRow}
    (free : ∀ m ∈ members, m ∈ t.members.get g ∨ (g = f → m.netblock ≠ k)) :
    ∀ m ∈ (t.members.set g members).get f, m.netblock ≠ k := by
  by_cases same : f = g
  · subst same
    rw [PerFamily.get_set_self]
    intro m member
    exact (free m member).elim (unlisted m) fun new => new rfl
  · rw [PerFamily.get_set_ne _ _ same]
    exact unlisted

theorem Unlisted.populate (unlisted : t.Unlisted f k) {g : Family} {list : RowId} {p : Predicate}
    {added : Nat} (run : Write.populate g list p t = .ok (added, u))
    (past : g = f → ∀ n ∈ t.netblocks.get g, Write.selects t p n = true → n.id ≠ k) :
    u.Unlisted f k := by
  obtain ⟨-, rfl⟩ := Write.populate_cases run
  refine unlisted.set_members fun m member => ?_
  rcases List.mem_append.mp member with old | new
  · exact Or.inl old
  · obtain ⟨n, chosen, rfl⟩ := List.mem_map.mp new
    obtain ⟨stored, selected⟩ := List.mem_filter.mp chosen
    exact Or.inr fun same => past same n stored selected

theorem Unlisted.step (unlisted : t.Unlisted f k) (step : t.StepPast f k u) : u.Unlisted f k := by
  obtain ⟨step, past⟩ := step
  cases step with
  | @populate g list p added run =>
    refine unlisted.populate run ?_
    rintro rfl
    exact past list p added run
  | sweepNetblocks run | clearList run =>
    obtain ⟨-, rfl⟩ := Prod.mk.inj (Except.ok.inj run)
    exact unlisted.set_members fun m member => Or.inl (List.mem_filter.mp member).1
  | writeOrg run =>
    obtain ⟨_, rfl⟩ := Write.writeOrg_frame run
    exact unlisted
  | writeNetblock _ run =>
    obtain ⟨_, rfl⟩ := Write.writeNetblock_frame run
    exact unlisted
  | ensureList run =>
    obtain ⟨_, rfl⟩ := Write.ensureList_frame run
    exact unlisted
  | insertUnionBlock run =>
    obtain ⟨_, rfl⟩ := Write.insertUnionBlock_frame run
    exact unlisted
  | insertCoverageBlock run =>
    obtain ⟨_, rfl⟩ := Write.insertCoverageBlock_frame run
    exact unlisted
  | insertRegistrar _ run | sweepOrgs run | linkNetblocks run | recordImport run
    | clearCoverage run =>
    obtain ⟨-, rfl⟩ := Prod.mk.inj (Except.ok.inj run)
    exact unlisted

/-- **An id that is not in use** has no memberships, and gets none before a population selects the
netblock that has it by then. -/
theorem unlisted_until_chosen (exact : t.MembersExact) (unused : t.Unused f k)
    (steps : Relation.ReflTransGen (StepPast f k) t u) : u.Unlisted f k := by
  induction steps with
  | refl => exact exact.unlisted unused
  | tail _ last ih => exact ih.step last

end Tables

/-- The statements of inserts do not change memberships. -/
theorem Tables.InsertStep.members {t u : Tables} (step : t.InsertStep u) :
    u.members = t.members := by
  cases step with
  | writeOrg run =>
    obtain ⟨_, rfl⟩ := Write.writeOrg_frame run
    rfl
  | writeNetblock _ run =>
    obtain ⟨_, rfl⟩ := Write.writeNetblock_frame run
    rfl

namespace Service

variable {s : Service}

/-- Whatever an open import writes, the memberships are those from before. -/
theorem inserts_members {inserts : List Event} (kind : ∀ e ∈ inserts, e.isInsert = true) :
    (s.after inserts).db.tables.members = s.db.tables.members := by
  induction inserts with
  | nil => rfl
  | cons e past ih =>
    have earlier := ih fun d member => kind d (List.mem_cons_of_mem _ member)
    have stable : Database.StableUnder Tables.InsertStep fun db =>
        db.tables.members = s.db.tables.members :=
      fun _ _ _ step same => step.members.trans same
    have keeps : Keeps (Holds (s.after past).importer.isSome _) (work e.request) :=
      keeps_insert stable e.request (kind e List.mem_cons_self)
    exact (keeps.run (s := ((s.after past).importer, .on (s.after past).db)) ⟨rfl, earlier⟩).2

/-- **Memberships never dangle.** In every state that public operations lead to, and in the one that
a rollback would go back to, each membership copies the one netblock that has its id.  An id that no
netblock has is free of memberships, and still is when a netblock gets it, in an import or otherwise,
until a population selects that netblock. -/
theorem members_exact {db : Database} {imports : List Importer} (reached : Reachable db imports) :
    db.tables.MembersExact ∧ (∀ t ∈ db.saved, t.MembersExact) ∧
      ∀ f k, db.tables.Unused f k →
        (∀ u, Relation.ReflTransGen (Tables.StepPast f k) db.tables u → u.Unlisted f k) ∧
        ∀ (held : Option Importer) (inserts : List Event), (∀ e ∈ inserts, e.isInsert = true) →
          (Service.after ⟨db, held⟩ inserts).db.tables.Unlisted f k := by
  obtain ⟨sound, savedSound⟩ := reached.database.sound
  obtain ⟨backed, savedBacked⟩ := reached.database.backed
  have exact := backed.exact sound
  refine ⟨exact, fun t back => (savedBacked t back).exact (savedSound t back), ?_⟩
  intro f k unused
  refine ⟨fun u steps => Tables.unlisted_until_chosen exact unused steps, ?_⟩
  intro held inserts kind m member
  rw [inserts_members kind] at member
  exact exact.unlisted unused m member

/-- A netblock is in a list, is not reported by the next import, and the one after that is open. -/
def swept : List Event :=
  [⟨.beginImport "TEST"⟩, ⟨.finishImport 8⟩,
    ⟨.insertNetblock .v4 (.range (.wrap .v4 0) (.wrap .v4 255) 24) ⟨none, "A", ""⟩⟩,
    ⟨.beginImport "TEST"⟩, ⟨.populate .v6 1 (.registrar "TEST")⟩, ⟨.ensureList "all"⟩] ++ firstImport

/-- Another netblock. -/
def newcomer : List Event :=
  [⟨.insertNetblock .v6 (.range (.wrap .v6 16) (.wrap .v6 31) 124) ⟨none, "C", ""⟩⟩]

/-- The netblock gets the id of the one that was in the list. -/
theorem members_exact_swept :
    Reachable (empty.after swept).db (empty.after swept).importer.toList ∧
      (empty.after (swept.drop 4)).db.tables.members.v6.map (·.netblock) = [1] ∧
      (empty.after swept).db.tables.MembersExact ∧ (empty.after swept).db.tables.Unused .v6 1 ∧
      ((empty.after swept).after newcomer).db.tables.netblocks.v6.map (·.id) = [1] ∧
      ((empty.after swept).after newcomer).db.tables.Unlisted .v6 1 := by
  have reached : Reachable (empty.after swept).db (empty.after swept).importer.toList := by
    refine reachable_after fun e member => ?_
    simp only [swept, firstImport, List.mem_cons, List.mem_append, List.not_mem_nil, or_false]
      at member
    rcases member with (rfl | rfl | rfl | rfl | rfl | rfl) | rfl | rfl | rfl | rfl | rfl <;> rfl
  have unused : (empty.after swept).db.tables.Unused .v6 1 := by
    intro n member
    cases (show n ∈ ([] : List NetblockRow) from member)
  obtain ⟨exact, -, fresh⟩ := members_exact reached
  have unlisted := (fresh .v6 1 unused).2 (empty.after swept).importer newcomer
    fun e member => by rw [List.mem_singleton.mp member]; rfl
  exact ⟨reached, rfl, exact, unused, rfl, unlisted⟩

end Service

end NetRegistry
