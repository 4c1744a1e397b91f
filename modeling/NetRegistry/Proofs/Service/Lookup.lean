/-
# Proofs.Service.Lookup -- the netblock that a lookup finds

A lookup takes the netblocks that contain an address and answers with the one of
the longest stored prefix, the oldest of equals.  Prefix lengths only order
netblocks by inclusion because each row holds a block with its own prefix length
(`NetblockRow.Stores`), and blocks that share an address are nested.

* `mostSpecific?_eq_some`: the row chosen among some is one of them, and none of
  the others goes before it.
* `mem_containing_iff`: the rows chosen from are those whose range contains the
  address; that their registrar is looked up loses none of them.
* `lookup_eq`: reading the chosen row back cannot fail.

**Main theorem** `lookup_longestPrefix`.
-/
import NetRegistry.Proofs.Address.Laminar
import NetRegistry.Proofs.Rebuild.Rebuilt
import NetRegistry.Proofs.Service.History
import NetRegistry.Proofs.Store.Linked

namespace NetRegistry

set_option autoImplicit false

namespace Tables

variable {t : Tables} {f : Family} {a : Addr f} {n : NetblockRow} {rows : List NetblockRow}

/-! ## The most specific of some rows -/

/-- The row is as good an answer as the other: its prefix is longer, or as long and it is no
younger. -/
def NoLess (n m : NetblockRow) : Prop :=
  m.prefixLen < n.prefixLen ∨ m.prefixLen = n.prefixLen ∧ n.id ≤ m.id

theorem moreSpecific_eq_true_iff {m n : NetblockRow} :
    moreSpecific m n = true ↔ n.prefixLen < m.prefixLen ∨ m.prefixLen = n.prefixLen ∧ m.id < n.id := by
  simp only [moreSpecific, Bool.or_eq_true, Bool.and_eq_true, decide_eq_true_eq, beq_iff_eq]

theorem NoLess.refl (n : NetblockRow) : NoLess n n := Or.inr ⟨rfl, Int.le_refl _⟩

theorem NoLess.trans {l m n : NetblockRow} (first : NoLess l m) (second : NoLess m n) :
    NoLess l n := by
  unfold NoLess RowId at *
  omega

theorem noLess_of_moreSpecific {m n : NetblockRow} (more : moreSpecific m n = true) :
    NoLess m n := by
  rw [moreSpecific_eq_true_iff] at more
  unfold NoLess RowId at *
  omega

theorem noLess_of_not_moreSpecific {m n : NetblockRow} (less : moreSpecific m n ≠ true) :
    NoLess n m := by
  rw [Ne, moreSpecific_eq_true_iff] at less
  unfold NoLess RowId at *
  omega

theorem mostSpecific?_eq_none_iff : mostSpecific? rows = none ↔ rows = [] := by
  cases rows with
  | nil => exact ⟨fun _ => rfl, fun _ => rfl⟩
  | cons n rest =>
    refine ⟨fun none => ?_, fun nil => by cases nil⟩
    rw [mostSpecific?] at none
    split at none <;> cases none

theorem mostSpecific?_eq_some (found : mostSpecific? rows = some n) :
    n ∈ rows ∧ ∀ m ∈ rows, NoLess n m := by
  induction rows generalizing n with
  | nil => cases found
  | cons head rest ih =>
    rw [mostSpecific?] at found
    cases best : mostSpecific? rest with
    | none =>
      rw [best] at found
      cases found
      rw [mostSpecific?_eq_none_iff.mp best]
      exact ⟨List.mem_singleton.mpr rfl, fun m member => List.mem_singleton.mp member ▸ .refl _⟩
    | some m =>
      obtain ⟨member, above⟩ := ih best
      rw [best] at found
      obtain rfl := Option.some.inj found
      split
      · rename_i more
        refine ⟨List.mem_cons_of_mem _ member, fun l inside => ?_⟩
        rcases List.mem_cons.mp inside with rfl | later
        · exact noLess_of_moreSpecific more
        · exact above l later
      · rename_i less
        have first := noLess_of_not_moreSpecific less
        refine ⟨List.mem_cons_self, fun l inside => ?_⟩
        rcases List.mem_cons.mp inside with rfl | later
        · exact .refl _
        · exact first.trans (above l later)

/-! ## Netblocks that contain an address -/

/-- A stored netblock with its range, which contains an address. -/
structure Holding (t : Tables) (f : Family) (a : Addr f) (n : NetblockRow) (r : Range f) :
    Prop where
  stored : n ∈ t.netblocks.get f
  range : n.range? f = some r
  inside : a ∈ r

end Tables

namespace NetblockRow.Stores

variable {f : Family} {n : NetblockRow} {b : Block f}

theorem cells (stores : n.Stores b) : n.cells = b.range.toRow := by
  rw [NetblockRow.cells, stores.first, stores.last]
  rfl

theorem range? (stores : n.Stores b) : n.range? f = some b.range := by
  show (Read.bounds f n.cells).toOption = _
  rw [stores.cells, bounds_toRow]
  rfl

end NetblockRow.Stores

namespace Tables

variable {t : Tables} {f : Family} {a : Addr f} {n : NetblockRow} {rows : List NetblockRow}

theorem Sound.holding_iff (sound : t.Sound) {r : Range f} :
    t.Holding f a n r ↔ n ∈ t.netblocks.get f ∧ ∃ b, n.Stores b ∧ b.range = r ∧ a ∈ b := by
  constructor
  · rintro ⟨stored, range, inside⟩
    obtain ⟨b, stores⟩ := (sound.netblocks f).blocks n stored
    obtain rfl : b.range = r := Option.some.inj (stores.range?.symm.trans range)
    exact ⟨stored, b, stores, rfl, stores.valid.mem_range_iff.mp inside⟩
  · rintro ⟨stored, b, stores, rfl, inside⟩
    exact ⟨stored, stores.range?, stores.valid.mem_range_iff.mpr inside⟩

/-- Stored addresses compare as addresses do, and no registrar is missing. -/
theorem mem_containing_iff (sound : t.Sound) (linked : t.Linked) :
    n ∈ t.containing f a ↔ ∃ r, t.Holding f a n r := by
  rw [containing, List.mem_filter]
  constructor
  · rintro ⟨stored, inside⟩
    obtain ⟨b, stores⟩ := (sound.netblocks f).blocks n stored
    rw [stores.first, stores.last, toCell_le, toCell_le, Bool.and_eq_true, Bool.and_eq_true,
      decide_eq_true_eq, decide_eq_true_eq] at inside
    exact ⟨b.range, stored, stores.range?, Range.mem_iff.mpr inside.1⟩
  · rintro ⟨r, holding⟩
    obtain ⟨stored, b, stores, -, inside⟩ := sound.holding_iff.mp holding
    obtain ⟨low, high⟩ := stores.valid.mem_iff.mp inside
    have known := registrar?_isSome_iff.mpr ((linked.netblocks f).registered n stored)
    rw [stores.first, stores.last, toCell_le, toCell_le, decide_eq_true low, decide_eq_true high]
    exact ⟨stored, known⟩

/-! ## Reading the answer -/

/-- What a lookup tells of a row that holds a block. -/
def infoOf (t : Tables) {f : Family} (n : NetblockRow) (b : Block f) : NetblockInfo f where
  id := n.id
  registrar := ((t.registrar? n.registrar).map (·.name)).getD ""
  orgHandle := (t.orgOf? n).map (·.handle) <|> n.reference
  orgName := (t.orgOf? n).map (·.name)
  first := b.base
  last := b.last
  prefixLen := b.prefixLen
  netname := n.name
  descr := n.descr

theorem addr_toCell (column : Nat) (name : String) (a : Addr f) :
    Read.addr f column name a.toCell = .ok a :=
  addr_eq_ok_iff.mpr rfl

theorem bounded_prefixLen {b : Block f} (valid : b.Valid) (column : Nat) :
    Read.bounded maxPrefixLen column b.prefixLen = .ok b.prefixLen := by
  have small := valid.prefixLen_le
  rw [Read.bounded, if_pos (by omega), Int.toNat_natCast]

theorem lookup_eq {b : Block f} (best : mostSpecific? (t.containing f a) = some n)
    (stores : n.Stores b) : t.lookup f a = .ok (some (t.infoOf n b)) := by
  rw [lookup, best]
  simp only [stores.first, stores.last, stores.prefixLen, addr_toCell,
    bounded_prefixLen stores.valid]
  rfl

end Tables

/-! ## Longest prefixes -/

/-- The range that a lookup tells of. -/
def NetblockInfo.range {f : Family} (info : NetblockInfo f) : Range f := ⟨info.first, info.last⟩

/-- What a lookup tells is read off a netblock row, its registrar and its organization. -/
structure NetblockInfo.Describes {f : Family} (info : NetblockInfo f) (t : Tables)
    (n : NetblockRow) : Prop where
  id : info.id = n.id
  registrar : ∃ r ∈ t.registrars, r.id = n.registrar ∧ r.name = info.registrar
  orgHandle : info.orgHandle = ((t.orgOf? n).map (·.handle) <|> n.reference)
  orgName : info.orgName = (t.orgOf? n).map (·.name)
  range : n.range? f = some info.range
  prefixLen : n.prefixLen = info.prefixLen
  netname : info.netname = n.name
  descr : info.descr = n.descr

namespace Tables

/-- The netblock of the longest prefix that contains an address. -/
structure LongestPrefix (t : Tables) (f : Family) (a : Addr f) (info : NetblockInfo f) : Prop where
  /-- It is stored and contains the address. -/
  found : ∃ n, t.Holding f a n info.range ∧ info.Describes t n
  /-- Its range lies in that of every other that contains the address. -/
  narrowest : ∀ m s, t.Holding f a m s → ∀ x ∈ info.range, x ∈ s
  /-- It is the oldest of those with its range. -/
  oldest : ∀ m, t.Holding f a m info.range → info.id ≤ m.id
  /-- Those with its range are of different registrars. -/
  apart : ∀ m, t.Holding f a m info.range → ∀ l, t.Holding f a l info.range →
    m.registrar = l.registrar → m = l

variable {t : Tables} {f : Family} {a : Addr f} {n : NetblockRow}

theorem Linked.describes (linked : t.Linked) (stored : n ∈ t.netblocks.get f) {b : Block f}
    (stores : n.Stores b) : (t.infoOf n b).Describes t n := by
  refine ⟨rfl, ?_, rfl, rfl, stores.range?, stores.prefixLen, rfl, rfl⟩
  have known := registrar?_isSome_iff.mpr ((linked.netblocks f).registered n stored)
  obtain ⟨row, found⟩ := Option.isSome_iff_exists.mp known
  have same := List.find?_some found
  refine ⟨row, List.mem_of_find?_eq_some found, by simpa using same, ?_⟩
  rw [infoOf, found]
  rfl

/-- A registrar has no two netblocks of one range. -/
theorem Linked.eq_of_place (sound : t.Sound) (linked : t.Linked) {m : NetblockRow} {r : Range f}
    (first : t.Holding f a m r) (second : t.Holding f a n r) (same : m.registrar = n.registrar) :
    m = n := by
  obtain ⟨storedM, b, storesM, rangeB, -⟩ := sound.holding_iff.mp first
  obtain ⟨storedN, c, storesN, rangeC, -⟩ := sound.holding_iff.mp second
  have cells : m.cells = n.cells := by rw [storesM.cells, storesN.cells, rangeB, rangeC]
  have places : m.place = n.place := Prod.ext same cells
  exact eq_of_key (linked.netblocks f).places storedM storedN places

theorem longestPrefix_of_most (sound : t.Sound) (linked : t.Linked) {b : Block f}
    (best : mostSpecific? (t.containing f a) = some n) (stores : n.Stores b) :
    t.LongestPrefix f a (t.infoOf n b) := by
  obtain ⟨member, above⟩ := mostSpecific?_eq_some best
  obtain ⟨r, holding⟩ := (mem_containing_iff sound linked).mp member
  obtain rfl : b.range = r := Option.some.inj (stores.range?.symm.trans holding.range)
  have inside : a ∈ b := stores.valid.mem_range_iff.mp holding.inside
  refine ⟨⟨n, holding, linked.describes holding.stored stores⟩, ?_, ?_, ?_⟩
  · intro m s other x within
    have noLess := above m ((mem_containing_iff sound linked).mpr ⟨s, other⟩)
    obtain ⟨-, c, storesC, rfl, insideC⟩ := sound.holding_iff.mp other
    have shorter : c.prefixLen ≤ b.prefixLen := by
      unfold NoLess at noLess
      rw [stores.prefixLen, storesC.prefixLen] at noLess
      omega
    exact Block.within_of_prefixLen_le stores.valid storesC.valid inside insideC shorter x within
  · intro m other
    have noLess := above m ((mem_containing_iff sound linked).mpr ⟨_, other⟩)
    obtain ⟨-, c, storesC, range, -⟩ := sound.holding_iff.mp other
    -- Rows of one range have one prefix length, as it is told by the range.
    have prefixLen : c.prefixLen = b.prefixLen := by
      have same := storesC.valid.prefixLen?_range
      rw [show c.range = b.range from range, stores.valid.prefixLen?_range] at same
      exact (Except.ok.inj same).symm
    rcases noLess with longer | ⟨-, older⟩
    · rw [stores.prefixLen, storesC.prefixLen, prefixLen] at longer
      exact absurd longer (Int.lt_irrefl _)
    · exact older
  · intro m first l second same
    exact linked.eq_of_place sound first second same

/-- In sound tables a lookup succeeds and tells of the longest prefix. -/
theorem exists_lookup (sound : t.Sound) (linked : t.Linked) (f : Family) (a : Addr f) :
    ∃ found, t.lookup f a = .ok found ∧
      (found.isSome = true ↔ ∃ n r, t.Holding f a n r) ∧
      ∀ info ∈ found, t.LongestPrefix f a info := by
  cases best : mostSpecific? (t.containing f a) with
  | none =>
    have nowhere := mostSpecific?_eq_none_iff.mp best
    refine ⟨none, by rw [lookup, best], ?_, fun info member => by cases member⟩
    refine ⟨fun some => Bool.noConfusion some, ?_⟩
    rintro ⟨n, r, holding⟩
    have member := (mem_containing_iff sound linked).mpr ⟨r, holding⟩
    rw [nowhere] at member
    cases member
  | some n =>
    have member := (mostSpecific?_eq_some best).1
    obtain ⟨r, holding⟩ := (mem_containing_iff sound linked).mp member
    obtain ⟨b, stores⟩ := (sound.netblocks f).blocks n holding.stored
    refine ⟨_, lookup_eq best stores, ⟨fun _ => ⟨n, r, holding⟩, fun _ => rfl⟩, ?_⟩
    intro info told
    obtain rfl := Option.some.inj told
    exact longestPrefix_of_most sound linked best stores

end Tables

namespace Service

/-- **Lookups find the longest prefix**: in every reachable database, also while a transaction is
open, a lookup succeeds, finds a netblock when one contains the address, and then the narrowest
and oldest one. -/
theorem lookup_longestPrefix {db : Database} {imports : List Importer}
    (reached : Reachable db imports) (held : Option Importer) (f : Family) (a : Addr f) :
    ∃ found, answer (.lookup a) ⟨db, held⟩ = .ok found ∧
      (found.isSome = true ↔ ∃ n r, db.tables.Holding f a n r) ∧
      ∀ info ∈ found, db.tables.LongestPrefix f a info := by
  obtain ⟨found, lookup, some, longest⟩ :=
    Tables.exists_lookup reached.database.sound.1 reached.database.linked.1 f a
  refine ⟨found, ?_, some, longest⟩
  show ((db.tables.lookup f a).mapError Error.storage).mapError Failure.error = _
  rw [lookup]
  rfl

/-- Another registrar writes a netblock that is there already, and one inside it. -/
def overlapping : List Event :=
  ⟨.insertNetblock .v4 (.range (.wrap .v4 0) (.wrap .v4 15) 28) ⟨none, "B", ""⟩⟩ ::
    ⟨.insertNetblock .v4 (.range (.wrap .v4 0) (.wrap .v4 255) 24) ⟨none, "C", ""⟩⟩ ::
    ⟨.beginImport "OTHER"⟩ :: firstImport

theorem lookup_longestPrefix_overlapping :
    Reachable (empty.after overlapping).db (empty.after overlapping).importer.toList ∧
      ∃ info, answer (.lookup (Addr.wrap .v4 77)) (empty.after overlapping) = .ok (some info) ∧
        info.registrar = "TEST" ∧
        (empty.after overlapping).db.tables.LongestPrefix .v4 (.wrap .v4 77) info := by
  have reached : Reachable (empty.after overlapping).db
      (empty.after overlapping).importer.toList := by
    refine reachable_after fun e member => ?_
    simp only [overlapping, firstImport, List.mem_cons, List.not_mem_nil, or_false] at member
    rcases member with rfl | rfl | rfl | rfl | rfl | rfl | rfl | rfl <;> rfl
  obtain ⟨found, answered, -, longest⟩ :=
    lookup_longestPrefix reached (empty.after overlapping).importer .v4 (.wrap .v4 77)
  have told : answer (.lookup (Addr.wrap .v4 77)) (empty.after overlapping) =
      .ok (some ⟨1, "TEST", some "ORG", some "An organization", .wrap .v4 0, .wrap .v4 255, 24, "A",
        ""⟩) := rfl
  refine ⟨reached, _, told, rfl, longest _ ?_⟩
  rw [Except.ok.inj (answered.symm.trans told)]
  rfl

end Service

end NetRegistry
