/-
# Proofs.Import.Counted -- the statistics of an import account for its rows

An import counts a record as new when a row is added for it, and finishing it counts
the rows that it deletes by their serials.  No row is deleted before that
(`Importer.Tallies`), so a table under an open import holds the keys from before it
and those that were reported, every key once.  Of these the finished import keeps
those that were reported.  Both counts are therefore differences of sets of keys,
however often a key was reported (`RowCounts.accounts`).

**Main theorem** `Mirrors.accounted`.
-/
import Mathlib.Data.Finset.Card
import NetRegistry.Proofs.Import.Frame

namespace NetRegistry

set_option autoImplicit false

open Importer (Begins Continues Delivery Settled Writes)

/-! ## Counts of keys -/

/-- The counts tell how many keys came and went, by the keys of the rows from before and after. -/
structure RowCounts.Accounts {κ : Type} [DecidableEq κ] (c : RowCounts) (before after : List κ) :
    Prop where
  new : c.new = (after.toFinset \ before.toFinset).card
  deleted : c.deleted = (before.toFinset \ after.toFinset).card
  rows : (after.length : Int) = before.length + c.new - c.deleted

/-- Counts are right when rows were first added and then deleted, so that those in between have the
keys of both ends. -/
theorem RowCounts.accounts {κ : Type} [DecidableEq κ] {c : RowCounts} {before during after : List κ}
    (distinct : before.Nodup) (distinct' : during.Nodup) (distinct'' : after.Nodup)
    (both : ∀ k, k ∈ during ↔ k ∈ after ∨ k ∈ before)
    (added : during.length = before.length + c.new)
    (removed : during.length = after.length + c.deleted) : c.Accounts before after := by
  have union : during.toFinset = after.toFinset ∪ before.toFinset := by
    ext k
    simp only [List.mem_toFinset, Finset.mem_union, both]
  have came := Finset.card_sdiff_add_card after.toFinset before.toFinset
  have went := Finset.card_sdiff_add_card before.toFinset after.toFinset
  rw [← union, List.toFinset_card_of_nodup distinct, List.toFinset_card_of_nodup distinct'] at came
  rw [Finset.union_comm, ← union, List.toFinset_card_of_nodup distinct'',
    List.toFinset_card_of_nodup distinct'] at went
  refine ⟨?_, ?_, ?_⟩ <;> omega

namespace Keying

variable {α κ : Type} (K : Keying α κ)

/-- The keys of the rows of an owner. -/
def keys (g : RowId) (rows : List α) : List κ := (rows.filter (K.owner · == g)).map K.key

variable {K} {rows : List α} {g : RowId}

theorem length_keys : (K.keys g rows).length = rows.countP (K.owner · == g) := by
  rw [keys, List.length_map, List.countP_eq_length_filter]

/-- The other rows are those of other owners. -/
theorem length_keys_add (K : Keying α κ) (g : RowId) (rows : List α) :
    (K.keys g rows).length + (rows.filter (K.owner · != g)).length = rows.length := by
  rw [length_keys, ← List.countP_eq_length_filter,
    List.length_eq_countP_add_countP (K.owner · == g) (l := rows)]
  simp only [bne, Bool.not_eq_true, Bool.decide_eq_false]

theorem keys_map {change : α → α} (sameOwner : ∀ r, K.owner (change r) = K.owner r)
    (sameKey : ∀ r, K.key (change r) = K.key r) : K.keys g (rows.map change) = K.keys g rows := by
  have owners : (fun r => K.owner r == g) ∘ change = fun r => K.owner r == g := by
    funext r
    rw [Function.comp_apply, sameOwner]
  rw [keys, List.filter_map, owners, List.map_map]
  exact List.map_congr_left fun r _ => sameKey r

variable [DecidableEq κ] {content : RowId → κ → Option α}

theorem length_filter_has (shows : K.Shows rows content) (g : RowId) (k : κ) :
    (rows.filter (K.has g k)).length = (content g k).toList.length := by
  rw [← shows g k, List.length_map]

theorem Shows.mem_keys_iff (shows : K.Shows rows content) {k : κ} :
    k ∈ K.keys g rows ↔ (content g k).isSome = true := by
  have there : k ∈ K.keys g rows ↔ rows.filter (K.has g k) ≠ [] := by
    simp only [keys, List.mem_map, List.mem_filter, beq_iff_eq, ne_eq, List.filter_eq_nil_iff,
      has_iff, Classical.not_forall, Classical.not_not, exists_prop, and_assoc]
  rw [there, ← List.length_pos_iff, length_filter_has shows]
  cases content g k <;> simp

/-- No key of an owner is there twice. -/
theorem Shows.nodup_keys (shows : K.Shows rows content) (g : RowId) : (K.keys g rows).Nodup := by
  refine List.nodup_iff_count_le_one.mpr fun k => ?_
  have found : (K.keys g rows).count k = (rows.filter (K.has g k)).length := by
    rw [keys, List.count, List.countP_map, List.countP_filter, List.countP_eq_length_filter]
    congr 2
    funext r
    exact Bool.and_comm _ _
  rw [found, length_filter_has shows]
  cases content g k <;> simp

end Keying

/-! ## Keys of a named registrar -/

namespace Tables

/-- The keys of the rows whose registrar has the name. -/
def keysOf {α κ : Type} (t : Tables) (K : Keying α κ) (name : String) (rows : List α) : List κ :=
  (rows.filter fun r => (t.registrar? (K.owner r)).any (·.name == name)).map K.key

/-- The handles of the organizations that are stored for a registrar. -/
def handlesOf (t : Tables) (name : String) : List String :=
  t.keysOf Kind.orgs.toKeying name t.orgs

/-- The ranges of the netblocks that are stored for a registrar, by their first and last address. -/
def rangesOf (t : Tables) (f : Family) (name : String) : List (Cell × Cell) :=
  t.keysOf (Kind.netblocks f).toKeying name (t.netblocks.get f)

theorem keysOf_eq {α κ : Type} {t : Tables} {K : Keying α κ} {name : String} {rows : List α}
    {g : RowId} (owned : ∀ r ∈ rows, ∃ row, t.registrar? (K.owner r) = some row ∧
      (row.name = name ↔ row.id = g)) : t.keysOf K name rows = K.keys g rows := by
  unfold keysOf Keying.keys
  refine congrArg (List.map K.key) (List.filter_congr fun r member => ?_)
  obtain ⟨row, found, named⟩ := owned r member
  have id : row.id = K.owner r := by simpa using List.find?_some found
  rw [found, Option.any_some, Bool.eq_iff_iff, beq_iff_eq, beq_iff_eq, named, id]

end Tables

/-- What the statistics of a finished import of a registrar say of the tables from before it and
after it. -/
structure ImportStats.Accounts (stats : ImportStats) (name : String) (t u : Tables) : Prop where
  /-- A registrar that was not there had no import. -/
  serial : (stats.serial : Int) = ((t.registrarNamed? name).map (·.serial)).getD 0 + 1
  orgs : stats.orgs.Accounts (t.handlesOf name) (u.handlesOf name)
  netblocks : ∀ f, (stats.netblocks.get f).Accounts (t.rangesOf f name) (u.rangesOf f name)
  /-- The whole tables have grown and shrunk by as much. -/
  orgRows : (u.orgs.length : Int) = t.orgs.length + stats.orgs.new - stats.orgs.deleted
  netblockRows : ∀ f, ((u.netblocks.get f).length : Int) =
    (t.netblocks.get f).length + (stats.netblocks.get f).new - (stats.netblocks.get f).deleted

/-! ## Rows under an open import -/

namespace Importer

variable {i j : Importer} {saved t u : Tables}

/-- What the import has counted as new is what the tables have more than before it. -/
structure Tallies (i : Importer) (saved t : Tables) : Prop where
  orgs : t.orgs.length = saved.orgs.length + i.stats.orgs.new
  netblocks : ∀ f, (t.netblocks.get f).length =
    (saved.netblocks.get f).length + (i.stats.netblocks.get f).new

theorem Tallies.begun (fresh : i.stats = noStats i.serial) (name : String) :
    i.Tallies saved (saved.registered name).2 := by
  rw [Tables.registered_eq]
  refine ⟨?_, fun f => ?_⟩
  · rw [fresh]
    rfl
  · rw [fresh]
    cases f <;> rfl

theorem Tallies.goesOn (tallies : i.Tallies saved t) (continues : i.Continues t j u) :
    j.Tallies saved u := by
  refine ⟨?_, fun f => ?_⟩
  · have before := tallies.orgs
    have added := continues.orgs
    omega
  · have before := tallies.netblocks f
    have added := continues.netblocks f
    omega

end Importer

namespace Kind

variable {α κ : Type} {K : Kind α κ} {rows mid rows' : List α} {g : RowId} {serial : Int}

theorem length_eq_kept (K : Kind α κ) (g : RowId) (serial : Int) (rows : List α) :
    rows.length = (rows.filter (!K.outdated g serial ·)).length + rows.countP (K.outdated g serial) := by
  rw [← List.countP_eq_length_filter, Nat.add_comm]
  simpa using List.length_eq_countP_add_countP (K.outdated g serial) (l := rows)

/-- Every outdated row is one of the owner. -/
theorem length_keys_eq_kept (K : Kind α κ) (g : RowId) (serial : Int) (rows : List α) :
    (K.keys g rows).length = (K.keys g (rows.filter (!K.outdated g serial ·))).length +
      rows.countP (K.outdated g serial) := by
  have own : rows.countP (K.outdated g serial) =
      (rows.filter (K.owner · == g)).countP (K.outdated g serial) := by
    rw [List.countP_filter]
    refine List.countP_congr fun r _ => ?_
    simp [outdated, and_comm]
  rw [Keying.keys, Keying.keys, List.length_map, List.length_map, own, List.filter_comm]
  exact K.length_eq_kept g serial _

variable [DecidableEq κ] {below content : RowId → κ → Option α} {d : Delivery} {c : RowCounts}

/-- **The counts of one kind of records.** -/
theorem accounts (before : K.Shows rows below) (during : K.Shows mid (K.overlaid below d g serial))
    (after : K.Shows rows' content) (asked : ∀ k, content g k = K.asked d g serial k)
    (added : (K.keys g mid).length = (K.keys g rows).length + c.new)
    (removed : (K.keys g mid).length = (K.keys g rows').length + c.deleted) :
    c.Accounts (K.keys g rows) (K.keys g rows') := by
  refine RowCounts.accounts (before.nodup_keys g) (during.nodup_keys g) (after.nodup_keys g) ?_
    added removed
  intro k
  rw [before.mem_keys_iff, during.mem_keys_iff, after.mem_keys_iff, asked, overlaid,
    if_pos (beq_self_eq_true g), Option.isSome_or, Bool.or_eq_true]

end Kind

/-! ## A finished import -/

namespace Mirrors

variable {saved base t u : Tables} {finished : String → List Delivery} {name : String}
  {i : Importer} {row : RegistrarRow} {d : Delivery} {now : Nat}

/-- The registrar of an import is the only one of its name. -/
theorem Enrolled.name_iff (enrolled : Enrolled saved base row) (named : row.name = name)
    {r : RegistrarRow} (member : r ∈ base.registrars) : r.name = name ↔ r.id = row.id := by
  constructor
  · intro same
    exact Classical.byContradiction fun other =>
      enrolled.name_ne member other (same.trans named.symm)
  · intro same
    rw [enrolled.eq_row member same, named]

section Kind

variable {α κ : Type} [DecidableEq κ] {K : Kind α κ} {rows mid rows' : List α} {c : RowCounts}

/-- The keys of a registrar by its name, before an import. -/
theorem keysOf_saved (enrolled : Enrolled saved base row) (named : row.name = name)
    (shows : K.Shows rows (K.mirrored saved finished))
    (written : ∀ r, K.serial (K.written r) = K.serial r) :
    saved.keysOf K.toKeying name rows = K.keys row.id rows := by
  refine Tables.keysOf_eq fun r member => ?_
  obtain ⟨owner, found, -⟩ := serial_of_mem shows written member
  have listed := (enrolled.registrars owner).mpr (Or.inr (List.mem_of_find?_eq_some found))
  exact ⟨owner, found, enrolled.name_iff named listed⟩

/-- The keys of a registrar by its name, after an import. -/
theorem keysOf_stamped (enrolled : Enrolled saved base row) (named : row.name = name)
    (registrars : u.registrars = base.registrars.map (stamp i now))
    (shows : K.Shows rows (K.mirrored u finished))
    (written : ∀ r, K.serial (K.written r) = K.serial r) :
    u.keysOf K.toKeying name rows = K.keys row.id rows := by
  refine Tables.keysOf_eq fun r member => ?_
  obtain ⟨owner, found, -⟩ := serial_of_mem shows written member
  have listed := List.mem_of_find?_eq_some found
  rw [registrars] at listed
  obtain ⟨earlier, there, rfl⟩ := List.mem_map.mp listed
  refine ⟨_, found, ?_⟩
  rw [stamp_name, stamp_id]
  exact enrolled.name_iff named there

/-- The counts of one kind of records, when the rows that were outdated have gone. -/
theorem kind_accounted (enrolled : Enrolled saved base row) (named : row.name = name)
    (own : i.registrar.id = row.id) (registrars : u.registrars = base.registrars.map (stamp i now))
    (written : ∀ r, K.serial (K.written r) = K.serial r)
    (before : K.Shows rows (K.mirrored saved finished))
    (during : K.Shows mid (K.overlaid (K.mirrored saved finished) d i.registrar.id i.serial))
    (after : K.Shows rows' (K.mirrored u (d.finish finished name)))
    (others : mid.filter (K.owner · != i.registrar.id) = rows.filter (K.owner · != i.registrar.id))
    (kept : K.keys i.registrar.id rows' =
      K.keys i.registrar.id (mid.filter (!K.outdated i.registrar.id i.serial ·)))
    (added : mid.length = rows.length + c.new)
    (removed : c.deleted = mid.countP (K.outdated i.registrar.id i.serial)) :
    c.Accounts (saved.keysOf K.toKeying name rows) (u.keysOf K.toKeying name rows') := by
  rw [keysOf_saved enrolled named before written,
    keysOf_stamped enrolled named registrars after written, ← own]
  refine Kind.accounts before during after
    (mirrored_own K finished d enrolled named own registrars) ?_ ?_
  · have all := K.toKeying.length_keys_add i.registrar.id mid
    have all' := K.toKeying.length_keys_add i.registrar.id rows
    rw [others] at all
    omega
  · rw [kept, removed]
    exact K.length_keys_eq_kept _ _ mid

end Kind

theorem serial_registered (t : Tables) (name : String) :
    (t.registered name).1.serial = ((t.registrarNamed? name).map (·.serial)).getD 0 := by
  unfold Tables.registered
  split <;> rename_i found <;> rw [found] <;> rfl

/-- **The statistics of a finished import** tell how many keys of its registrar came and went. -/
theorem accounted (mirrors : Mirrors saved finished) (begins : i.Begins (saved.registered name).1)
    (writes : Writes i.registrar.id i.serial (saved.registered name).2 .empty t d)
    (tallies : i.Tallies saved t) (settled : Settled i now t u) :
    (i.settledStats t).Accounts name saved u := by
  obtain ⟨enrolled, named, -⟩ := mirrors.enrolled name
  have after := mirrors.settled begins writes settled
  have registrars := registrars_settled writes settled
  have grownOrgs := enrolled.orgs ▸ writes.grown_orgs rfl
  have grownNetblocks := fun f => enrolled.netblocks ▸ writes.grown_netblocks rfl f
  refine ⟨?_, ?_, ?_, ?_, ?_⟩
  · rw [← serial_registered]
    exact begins.serial
  · refine kind_accounted enrolled named begins.id registrars (fun _ => rfl) mirrors.orgs
      (mirrors.shows_orgs enrolled writes) after.orgs grownOrgs.others ?_ tallies.orgs rfl
    rw [settled.orgs]
    rfl
  · intro f
    obtain ⟨link, left⟩ := settled.netblocks f
    refine kind_accounted enrolled named begins.id registrars (fun _ => rfl) (mirrors.netblocks f)
      (mirrors.shows_netblocks enrolled writes f) (after.netblocks f) (grownNetblocks f).others ?_
      ?_ ?_
    · rw [left]
      refine Keying.keys_map ?_ ?_
      · exact fun _ => rfl
      · exact fun _ => rfl
    · rw [Importer.settledStats, PerFamily.get_ofFn]
      exact tallies.netblocks f
    · rw [Importer.settledStats, PerFamily.get_ofFn]
      rfl
  · have all := Kind.orgs.length_eq_kept i.registrar.id i.serial t.orgs
    have rest : u.orgs.length = (t.orgs.filter (!Kind.orgs.outdated i.registrar.id i.serial ·)).length :=
      congrArg List.length settled.orgs
    have grown := tallies.orgs
    show (u.orgs.length : Int) = saved.orgs.length + i.stats.orgs.new -
      (t.orgs.countP (Kind.orgs.outdated i.registrar.id i.serial) : Nat)
    omega
  · intro f
    obtain ⟨link, left⟩ := settled.netblocks f
    have all := (Kind.netblocks f).length_eq_kept i.registrar.id i.serial (t.netblocks.get f)
    have rest : (u.netblocks.get f).length = ((t.netblocks.get f).filter
        (!(Kind.netblocks f).outdated i.registrar.id i.serial ·)).length := by
      rw [left, List.length_map]
      rfl
    have grown := tallies.netblocks f
    rw [Importer.settledStats, PerFamily.get_ofFn]
    show ((u.netblocks.get f).length : Int) = (saved.netblocks.get f).length +
      (i.stats.netblocks.get f).new -
      ((t.netblocks.get f).countP ((Kind.netblocks f).outdated i.registrar.id i.serial) : Nat)
    omega

end Mirrors

end NetRegistry
