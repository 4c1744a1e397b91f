/-
# Proofs.Import.Grown -- rows under an open import

What the tables show under a key (`Keying.Shows`) does not tell which row shows
it.  Here rows are followed one by one: whatever an import writes, the rows that
were there stay in their order with their ids, owners and keys, only those that it
has reported have changed, and the rows that it adds come after them
(`Kind.Grown`).

* `Grown.others`: the rows of other registrars are the same as before.
* `Grown.outdated`: of the rows of the registrar, those that carry another serial
  are those that were not reported.

**Main theorems** `Writes.grown_orgs`, `Writes.grown_netblocks`.
-/
import NetRegistry.Proofs.Import.Mirror

namespace NetRegistry

set_option autoImplicit false

open Importer (Delivery Writes)

namespace Kind

variable {α κ : Type}

/-- Whether a row of an owner carries another serial. -/
def outdated (K : Kind α κ) (owner : RowId) (serial : Int) (r : α) : Bool :=
  K.owner r == owner && K.serial r != serial

/-- How rows of one owner were written over some rows: those that were there have gone through a
change that keeps their ids, owners and keys, and the new ones carry the serial. -/
structure Growth (K : Kind α κ) (id : α → RowId) (owner : RowId) (serial : Int)
    (reported : κ → Bool) (rows : List α) (change : α → α) (new : List α) : Prop where
  sameId : ∀ r, id (change r) = id r
  sameOwner : ∀ r, K.owner (change r) = K.owner r
  sameKey : ∀ r, K.key (change r) = K.key r
  refreshed : ∀ r ∈ rows, K.owner r = owner → reported (K.key r) = true →
    K.serial (change r) = serial
  same : ∀ r ∈ rows, (K.owner r = owner → reported (K.key r) = false) → change r = r
  added : ∀ r ∈ new, K.owner r = owner ∧ K.serial r = serial

/-- Rows that others have grown into. -/
def Grown (K : Kind α κ) (id : α → RowId) (owner : RowId) (serial : Int) (reported : κ → Bool)
    (rows rows' : List α) : Prop :=
  ∃ change new, rows' = rows.map change ++ new ∧ K.Growth id owner serial reported rows change new

variable {K : Kind α κ} {id : α → RowId} {owner : RowId} {serial : Int} {reported : κ → Bool}
  {rows rows' new : List α} {change again : α → α}

namespace Growth

section Step

variable [DecidableEq κ] {key : κ} {reported' : κ → Bool}

theorem refresh (growth : K.Growth id owner serial reported rows change new)
    (more : ∀ k, reported' k = (decide (k = key) || reported k))
    (sameId : ∀ r, id (again r) = id r) (sameOwner : ∀ r, K.owner (again r) = K.owner r)
    (sameKey : ∀ r, K.key (again r) = K.key r)
    (others : ∀ r, K.has owner key r = false → again r = r)
    (stamped : ∀ r, K.has owner key r = true → K.serial (again r) = serial) :
    K.Growth id owner serial reported' rows (again ∘ change) (new.map again) := by
  have kept : ∀ r, K.serial r = serial → K.serial (again r) = serial := by
    intro r already
    cases there : K.has owner key r with
    | true => exact stamped r there
    | false => rw [others r there, already]
  refine ⟨?_, ?_, ?_, ?_, ?_, ?_⟩
  · exact fun r => (sameId (change r)).trans (growth.sameId r)
  · exact fun r => (sameOwner (change r)).trans (growth.sameOwner r)
  · exact fun r => (sameKey (change r)).trans (growth.sameKey r)
  · intro r member own told
    rw [more, Bool.or_eq_true, decide_eq_true_eq] at told
    rcases told with now | before
    · exact stamped _ (Keying.has_iff.mpr
        ⟨(growth.sameOwner r).trans own, (growth.sameKey r).trans now⟩)
    · exact kept _ (growth.refreshed r member own before)
  · intro r member silent
    have before : K.owner r = owner → reported (K.key r) = false := by
      intro own
      have never := silent own
      rw [more, Bool.or_eq_false_iff] at never
      exact never.2
    rw [Function.comp_apply, growth.same r member before]
    refine others r (Bool.eq_false_iff.mpr fun there => ?_)
    obtain ⟨own, now⟩ := Keying.has_iff.mp there
    have never := silent own
    rw [more, Bool.or_eq_false_iff, decide_eq_false_iff_not] at never
    exact never.1 now
  · intro r member
    obtain ⟨s, inside, rfl⟩ := List.mem_map.mp member
    obtain ⟨own, carries⟩ := growth.added s inside
    exact ⟨(sameOwner s).trans own, kept s carries⟩

theorem append (growth : K.Growth id owner serial reported rows change new)
    (more : ∀ k, reported' k = (decide (k = key) || reported k))
    (missing : (rows.map change ++ new).any (K.has owner key) = false) {row : α}
    (own : K.owner row = owner) (carries : K.serial row = serial) :
    K.Growth id owner serial reported' rows change (new ++ [row]) := by
  refine ⟨growth.sameId, growth.sameOwner, growth.sameKey, ?_, ?_, ?_⟩
  · intro r member own told
    rw [more, Bool.or_eq_true, decide_eq_true_eq] at told
    rcases told with now | before
    · -- Then the row would be there under the key.
      have there : K.has owner key (change r) = true := Keying.has_iff.mpr
        ⟨(growth.sameOwner r).trans own, (growth.sameKey r).trans now⟩
      have absent := List.any_eq_false.mp missing (change r)
        (List.mem_append_left _ (List.mem_map_of_mem member))
      exact absurd there absent
    · exact growth.refreshed r member own before
  · intro r member silent
    refine growth.same r member fun own => ?_
    have never := silent own
    rw [more, Bool.or_eq_false_iff] at never
    exact never.2
  · intro r member
    rcases List.mem_append.mp member with old | last
    · exact growth.added r old
    · rw [List.mem_singleton.mp last]
      exact ⟨own, carries⟩

end Step

theorem filter_owner_ne (growth : K.Growth id owner serial reported rows change new) :
    (rows.map change ++ new).filter (K.owner · != owner) = rows.filter (K.owner · != owner) := by
  have none : new.filter (K.owner · != owner) = [] := by
    refine List.filter_eq_nil_iff.mpr fun r member other => ?_
    rw [(growth.added r member).1] at other
    simp at other
  have sameOwner : (fun r => K.owner (change r) != owner) = fun r => K.owner r != owner := by
    funext r
    rw [growth.sameOwner]
  rw [List.filter_append, none, List.append_nil, List.filter_map]
  show (rows.filter fun r => K.owner (change r) != owner).map change = _
  rw [sameOwner]
  refine (List.map_congr_left fun r member => ?_).trans (List.map_id' _)
  obtain ⟨stored, other⟩ := List.mem_filter.mp member
  exact growth.same r stored fun own => absurd own (bne_iff_ne.mp other)

theorem filter_outdated (growth : K.Growth id owner serial reported rows change new)
    (old : ∀ r ∈ rows, K.owner r = owner → K.serial r ≠ serial) :
    ((rows.map change ++ new).filter (K.outdated owner serial)).map id =
      (rows.filter fun r => K.owner r == owner && !reported (K.key r)).map id := by
  have none : new.filter (K.outdated owner serial) = [] := by
    refine List.filter_eq_nil_iff.mpr fun r member late => ?_
    rw [outdated, (growth.added r member).2] at late
    simp at late
  have told : ∀ r ∈ rows, K.outdated owner serial (change r) =
      (K.owner r == owner && !reported (K.key r)) := by
    intro r member
    rw [outdated, growth.sameOwner]
    by_cases own : K.owner r = owner
    · cases known : reported (K.key r) with
      | true => simp [own, growth.refreshed r member own known]
      | false => simp [own, growth.same r member fun _ => known, old r member own]
    · rw [beq_false_of_ne own, Bool.false_and, Bool.false_and]
  rw [List.filter_append, none, List.append_nil, List.filter_map, List.map_map]
  show (rows.filter fun r => K.outdated owner serial (change r)).map (fun r => id (change r)) = _
  rw [List.filter_congr told]
  exact List.map_congr_left fun r _ => growth.sameId r

end Growth

namespace Grown

theorem refl (K : Kind α κ) (id : α → RowId) (owner : RowId) (serial : Int) (rows : List α) :
    K.Grown id owner serial (fun _ => false) rows rows := by
  refine ⟨fun r => r, [], by simp, fun _ => rfl, fun _ => rfl, fun _ => rfl, ?_, fun _ _ _ => rfl, ?_⟩
  · intro r _ _ told
    cases told
  · intro r member
    cases member

variable [DecidableEq κ] {key : κ} {reported' : κ → Bool}

/-- The rows under a key are written again. -/
theorem refresh (grown : K.Grown id owner serial reported rows rows')
    (more : ∀ k, reported' k = (decide (k = key) || reported k))
    (sameId : ∀ r, id (again r) = id r) (sameOwner : ∀ r, K.owner (again r) = K.owner r)
    (sameKey : ∀ r, K.key (again r) = K.key r)
    (others : ∀ r, K.has owner key r = false → again r = r)
    (stamped : ∀ r, K.has owner key r = true → K.serial (again r) = serial) :
    K.Grown id owner serial reported' rows (rows'.map again) := by
  obtain ⟨change, new, rfl, growth⟩ := grown
  refine ⟨again ∘ change, new.map again, ?_,
    growth.refresh more sameId sameOwner sameKey others stamped⟩
  rw [List.map_append, List.map_map]

/-- A row is added under a key that has none. -/
theorem append (grown : K.Grown id owner serial reported rows rows')
    (more : ∀ k, reported' k = (decide (k = key) || reported k))
    (missing : rows'.any (K.has owner key) = false) {row : α}
    (own : K.owner row = owner) (carries : K.serial row = serial) :
    K.Grown id owner serial reported' rows (rows' ++ [row]) := by
  obtain ⟨change, new, rfl, growth⟩ := grown
  exact ⟨change, new ++ [row], List.append_assoc _ _ _, growth.append more missing own carries⟩

omit [DecidableEq κ]

/-- Rows of other owners are the same. -/
theorem others (grown : K.Grown id owner serial reported rows rows') :
    rows'.filter (K.owner · != owner) = rows.filter (K.owner · != owner) := by
  obtain ⟨change, new, rfl, growth⟩ := grown
  exact growth.filter_owner_ne

/-- When earlier rows of the owner carry other serials, the rows that still do are those that were
not reported. -/
theorem outdated (grown : K.Grown id owner serial reported rows rows')
    (old : ∀ r ∈ rows, K.owner r = owner → K.serial r ≠ serial) :
    (rows'.filter (K.outdated owner serial)).map id =
      (rows.filter fun r => K.owner r == owner && !reported (K.key r)).map id := by
  obtain ⟨change, new, rfl, growth⟩ := grown
  exact growth.filter_outdated old

/-- A row that was reported again is there under its id and is not outdated. -/
theorem kept (grown : K.Grown id owner serial reported rows rows') {r : α} (member : r ∈ rows)
    (own : K.owner r = owner) (again : reported (K.key r) = true) :
    ∃ s ∈ rows'.filter (!K.outdated owner serial ·),
      id s = id r ∧ K.owner s = owner ∧ K.key s = K.key r := by
  obtain ⟨change, new, rfl, growth⟩ := grown
  refine ⟨change r, ?_, growth.sameId r, (growth.sameOwner r).trans own, growth.sameKey r⟩
  refine List.mem_filter.mpr ⟨List.mem_append_left _ (List.mem_map_of_mem member), ?_⟩
  rw [Kind.outdated, growth.refreshed r member own again]
  simp

end Grown

end Kind

/-! ## Inserts -/

namespace Importer

variable {t u : Tables} {registrar : RowId} {serial : Nat} {d : Delivery} {f : Family}

namespace Delivery

/-- Whether an organization was reported. -/
def hasOrg (d : Delivery) (handle : String) : Bool := (d.org? handle).isSome

/-- Whether a netblock was reported. -/
def hasNetblock (d : Delivery) (f : Family) (cells : Cell × Cell) : Bool :=
  (d.netblock? f cells).isSome

theorem isSome_asked_org (d : Delivery) (g : RowId) (n : Int) (handle : String) :
    (Kind.orgs.asked d g n handle).isSome = d.hasOrg handle := Option.isSome_map

theorem isSome_asked_netblock (d : Delivery) (g : RowId) (n : Int) (cells : Cell × Cell) :
    ((Kind.netblocks f).asked d g n cells).isSome = d.hasNetblock f cells := Option.isSome_map

theorem hasOrg_withOrg (d : Delivery) (o : OrgRecord) (handle : String) :
    (d.withOrg o).hasOrg handle = (decide (handle = o.handle) || d.hasOrg handle) := by
  rw [← isSome_asked_org _ 0 0, asked_withOrg]
  by_cases same : handle = o.handle
  · simp [same]
  · simp [same, isSome_asked_org]

theorem hasNetblock_withNetblock (d : Delivery) (n : NetblockRecord f) (cells : Cell × Cell) :
    (d.withNetblock n).hasNetblock f cells =
      (decide (cells = (n.range.first.toCell, n.range.last.toCell)) || d.hasNetblock f cells) := by
  rw [← isSome_asked_netblock _ 0 0, asked_withNetblock]
  by_cases same : cells = (n.range.first.toCell, n.range.last.toCell)
  · simp [same]
  · simp [same, isSome_asked_netblock]

theorem hasNetblock_withNetblock_ne (d : Delivery) {g : Family} (n : NetblockRecord g)
    (ne : f ≠ g) : (d.withNetblock n).hasNetblock f = d.hasNetblock f := by
  funext cells
  rw [← isSome_asked_netblock _ 0 0, asked_withNetblock_ne d n ne, isSome_asked_netblock]

theorem hasNetblock_empty : Delivery.empty.hasNetblock f = fun _ => false := by
  funext cells
  cases f <;> rfl

end Delivery

theorem grown_writeOrg {rows : List OrgRow} {o : OrgRecord} {new : Bool}
    (grown : Kind.orgs.Grown (·.id) registrar serial d.hasOrg rows t.orgs)
    (run : Write.writeOrg registrar serial o t = .ok (new, u)) :
    Kind.orgs.Grown (·.id) registrar serial (d.withOrg o).hasOrg rows u.orgs := by
  rcases Write.writeOrg_cases run with ⟨-, rfl⟩ | ⟨missing, -, rfl⟩
  · refine grown.refresh (d.hasOrg_withOrg o) ?_ ?_ ?_ ?_ ?_
    · intro r
      split <;> rfl
    · intro r
      dsimp only [Kind.orgs]
      split <;> rfl
    · intro r
      dsimp only [Kind.orgs]
      split <;> rfl
    · intro r other
      exact if_neg (Bool.eq_false_iff.mp other)
    · intro r there
      have found : Write.isOrg registrar o r = true := there
      rw [if_pos found]
      rfl
  · exact grown.append (d.hasOrg_withOrg o) missing rfl rfl

theorem grown_writeNetblock {rows : List NetblockRow} {n : NetblockRecord f} {new : Bool}
    (grown : (Kind.netblocks f).Grown (·.id) registrar serial (d.hasNetblock f) rows
      (t.netblocks.get f))
    (run : Write.writeNetblock registrar serial n t = .ok (new, u)) :
    (Kind.netblocks f).Grown (·.id) registrar serial ((d.withNetblock n).hasNetblock f) rows
      (u.netblocks.get f) := by
  rcases Write.writeNetblock_cases run with ⟨-, rfl⟩ | ⟨missing, -, rfl⟩ <;>
    rw [PerFamily.get_set_self]
  · rw [← has_netblock]
    refine grown.refresh (d.hasNetblock_withNetblock n) ?_ ?_ ?_ ?_ ?_
    · intro r
      split <;> rfl
    · intro r
      split <;> rfl
    · intro r
      split <;> rfl
    · intro r other
      exact if_neg (Bool.eq_false_iff.mp other)
    · intro r there
      rw [if_pos there]
      rfl
  · rw [← has_netblock] at missing
    exact grown.append (d.hasNetblock_withNetblock n) missing rfl rfl

/-- **Organizations under an open import.** -/
theorem Writes.grown_orgs {c : Delivery} (writes : Writes registrar serial t c u d)
    (start : c = .empty) :
    Kind.orgs.Grown (·.id) registrar serial d.hasOrg t.orgs u.orgs := by
  induction writes with
  | refl =>
    subst start
    exact .refl _ _ _ _ _
  | org _ run ih => exact grown_writeOrg (ih start) run
  | netblock _ _ run ih =>
    obtain ⟨rows, rfl⟩ := Write.writeNetblock_frame run
    exact ih start

/-- **Netblocks under an open import.** -/
theorem Writes.grown_netblocks {c : Delivery} (writes : Writes registrar serial t c u d)
    (start : c = .empty) (f : Family) :
    (Kind.netblocks f).Grown (·.id) registrar serial (d.hasNetblock f) (t.netblocks.get f)
      (u.netblocks.get f) := by
  induction writes with
  | refl =>
    subst start
    rw [Delivery.hasNetblock_empty]
    exact .refl _ _ _ _ _
  | org _ run ih =>
    obtain ⟨orgs, rfl⟩ := Write.writeOrg_frame run
    exact ih start
  | @netblock u v c d g n new _ _ run ih =>
    by_cases same : f = g
    · subst same
      exact grown_writeNetblock (ih start) run
    · obtain ⟨rows, rfl⟩ := Write.writeNetblock_frame run
      show (Kind.netblocks f).Grown _ _ _ _ _ ((u.netblocks.set g rows).get f)
      rw [PerFamily.get_set_ne _ _ same, d.hasNetblock_withNetblock_ne n same]
      exact ih start

/-- Inserts leave memberships and the coverage alone. -/
theorem Writes.lists_kept {c : Delivery} (writes : Writes registrar serial t c u d) :
    u.members = t.members ∧ u.coverage = t.coverage := by
  induction writes with
  | refl => exact ⟨rfl, rfl⟩
  | org _ run ih =>
    obtain ⟨orgs, rfl⟩ := Write.writeOrg_frame run
    exact ih
  | netblock _ _ run ih =>
    obtain ⟨rows, rfl⟩ := Write.writeNetblock_frame run
    exact ih

end Importer

end NetRegistry
