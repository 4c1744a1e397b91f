/-
# Proofs.Rebuild.Rebuilt -- the tables after a list was rebuilt

`Tables.rebuilt t name p` is what a rebuild of the list `name` from the predicate
`p` makes of the tables, written down without the calls that lead there: the
list is there, its members are the netblocks that satisfy the predicate, and its
union is the minimal cover of their ranges.

* `stored?_rebuilt`, `stored?_rebuilt_ne`: what is stored under the name
  afterwards, and that nothing else is touched under any other name.
* `Sound.rebuilt`: the invariant of reachable tables is kept.
* `coverOf_minimalCover`: in sound tables the union is what it is meant to be.
-/
import NetRegistry.Proofs.Cover.Minimal
import NetRegistry.Proofs.Store.Sound

namespace NetRegistry

set_option autoImplicit false

/-! ## Ranges of netblock rows -/

/-- The range that a netblock row holds, if its cells are addresses. -/
def NetblockRow.range? (f : Family) (n : NetblockRow) : Option (Range f) :=
  (Read.bounds f (n.first, n.last)).toOption

/-- The cells of a netblock row that a scan reads. -/
def NetblockRow.cells (n : NetblockRow) : Cell × Cell := (n.first, n.last)

/-- A netblock row as a member of a list. -/
def NetblockRow.asMember (list : RowId) (n : NetblockRow) : MemberRow :=
  ⟨list, n.id, n.first, n.last, n.prefixLen⟩

/-- A block as a row of the union of a list. -/
def Block.asUnion {f : Family} (list : RowId) (b : Block f) : UnionRow := ⟨list, b.toRow⟩

/-- The ranges of netblock rows in scan order. -/
def scanned (f : Family) (rows : List NetblockRow) : List (Range f) :=
  (rows.filterMap (·.range? f)).mergeSort Range.le

namespace NetblocksSound

variable {f : Family} {rows : List NetblockRow}

theorem range?_eq_some (sound : NetblocksSound f rows) {n : NetblockRow} (member : n ∈ rows) :
    ∃ r : Range f, n.range? f = some r ∧ n.cells = r.toRow ∧ r.first ≤ r.last := by
  obtain ⟨b, stores⟩ := sound.blocks n member
  have cells : n.cells = b.range.toRow := by
    rw [NetblockRow.cells, stores.first, stores.last]
    rfl
  refine ⟨b.range, ?_, cells, stores.valid.base_le_last⟩
  show (Read.bounds f n.cells).toOption = _
  rw [cells, bounds_toRow]
  rfl

theorem sort_cells (sound : NetblocksSound f rows) :
    (rows.map NetblockRow.cells).mergeSort scanLe = (scanned f rows).map Range.toRow :=
  mergeSort_map_view fun _ => sound.range?_eq_some

theorem scanned_ordered (sound : NetblocksSound f rows) :
    ∀ r ∈ scanned f rows, r.first ≤ r.last :=
  mergeSort_decoded_ordered fun _ => sound.range?_eq_some

end NetblocksSound

/-- The rows of a cover are read back as the cover in its order. -/
theorem DisjointCover.read_rows {f : Family} {covered : Addr f → Prop} {blocks : List (Block f)}
    (cover : DisjointCover covered blocks) :
    ((blocks.map Block.toRow).mergeSort fun b c => b.base.le c.base).mapM (Read.block f) =
      .ok blocks := by
  have sorted : blocks.mergeSort (fun b c => b.base ≤ c.base) = blocks := by
    refine List.mergeSort_of_pairwise
      (cover.ascending.imp_of_mem fun {b c} memberB _ before => ?_)
    have low := (cover.valid b memberB).base_le_last
    exact decide_eq_true (Nat.le_of_lt (Nat.lt_of_le_of_lt low before))
  rw [mapM_mergeSort_toRow cover.valid, sorted]

theorem mem_scanned_iff {f : Family} {rows : List NetblockRow} {r : Range f} :
    r ∈ scanned f rows ↔ ∃ n ∈ rows, n.range? f = some r := by
  rw [scanned, List.mem_mergeSort, List.mem_filterMap]

namespace Tables

/-! ## What a predicate selects -/

/-- The netblocks that satisfy a predicate, in stored order. -/
def chosen (t : Tables) (f : Family) (p : Predicate) : List NetblockRow :=
  (t.netblocks.get f).filter (Write.selects t p)

/-- The fewest blocks that cover the netblocks that satisfy a predicate. -/
def coverOf (t : Tables) (f : Family) (p : Predicate) : List (Block f) :=
  minimalCover (scanned f (t.chosen f p))

/-- What a rebuild reports for one family. -/
def familyStats (t : Tables) (f : Family) (p : Predicate) : FamilyStats :=
  ⟨(t.chosen f p).length, (coalesce (scanned f (t.chosen f p))).length, (t.coverOf f p).length⟩

/-- What imports write and the coverage are the same. -/
structure SameRecords (t u : Tables) : Prop where
  registrars : u.registrars = t.registrars
  orgs : u.orgs = t.orgs
  netblocks : u.netblocks = t.netblocks
  coverage : u.coverage = t.coverage

namespace SameRecords

variable {t u v : Tables}

theorem refl (t : Tables) : t.SameRecords t := ⟨rfl, rfl, rfl, rfl⟩

theorem trans (first : t.SameRecords u) (second : u.SameRecords v) : t.SameRecords v :=
  ⟨second.registrars.trans first.registrars, second.orgs.trans first.orgs,
    second.netblocks.trans first.netblocks, second.coverage.trans first.coverage⟩

theorem selects (same : t.SameRecords u) : Write.selects u = Write.selects t := by
  funext p n
  have orgs : ∀ m, u.orgOf? m = t.orgOf? m := fun m => by
    have org : u.org? = t.org? := by
      funext id
      rw [org?, org?, same.orgs]
    rw [orgOf?, orgOf?, org]
  rw [Write.selects, Write.selects, candidate?, candidate?, registrar?, registrar?,
    same.registrars]
  simp only [orgs]

theorem chosen (same : t.SameRecords u) (f : Family) (p : Predicate) :
    u.chosen f p = t.chosen f p := by
  rw [Tables.chosen, Tables.chosen, same.netblocks, same.selects]

theorem coverOf (same : t.SameRecords u) (f : Family) (p : Predicate) :
    u.coverOf f p = t.coverOf f p := by
  rw [Tables.coverOf, Tables.coverOf, same.chosen]

theorem familyStats (same : t.SameRecords u) (f : Family) (p : Predicate) :
    u.familyStats f p = t.familyStats f p := by
  rw [Tables.familyStats, Tables.familyStats, same.coverOf, same.chosen]

end SameRecords

/-- The addresses of the netblocks that satisfy a predicate. -/
def Covered (t : Tables) (f : Family) (p : Predicate) (a : Addr f) : Prop :=
  ∃ n ∈ t.chosen f p, ∃ r, n.range? f = some r ∧ a ∈ r

theorem covered_iff {t : Tables} {f : Family} {p : Predicate} {a : Addr f} :
    (∃ r ∈ scanned f (t.chosen f p), a ∈ r) ↔ t.Covered f p a := by
  constructor
  · rintro ⟨r, member, inside⟩
    obtain ⟨n, stored, decoded⟩ := mem_scanned_iff.mp member
    exact ⟨n, stored, r, decoded, inside⟩
  · rintro ⟨n, stored, r, decoded, inside⟩
    exact ⟨r, mem_scanned_iff.mpr ⟨n, stored, decoded⟩, inside⟩

theorem Sound.chosen {t : Tables} (sound : t.Sound) (f : Family) (p : Predicate) :
    NetblocksSound f (t.chosen f p) :=
  (sound.netblocks f).filter _

theorem coverOf_minimalCover {t : Tables} (sound : t.Sound) (f : Family) (p : Predicate) :
    MinimalCover (t.Covered f p) (t.coverOf f p) := by
  have cover := minimalCover_canonicalCover (sound.chosen f p).scanned_ordered
    (Range.mergeSort_ascending _)
  exact cover.minimal.congr fun _ => covered_iff

theorem runs_maximalRuns {t : Tables} (sound : t.Sound) (f : Family) (p : Predicate) :
    MaximalRuns (t.Covered f p) (coalesce (scanned f (t.chosen f p))) :=
  (coalesce_maximalRuns (sound.chosen f p).scanned_ordered (Range.mergeSort_ascending _)).congr
    fun _ => covered_iff

/-! ## Lists by name -/

/-- The row of a list, with the rows of all lists after it was added if there was none. -/
def ensured (t : Tables) (name : String) : ListRow × List ListRow :=
  match t.lists.find? (·.name == name) with
  | some row => (row, t.lists)
  | none =>
      let row : ListRow := ⟨nextId (t.lists.map (·.id)), name⟩
      (row, t.lists ++ [row])

variable {t u : Tables} {name other : String} {p : Predicate}

theorem ensureList_eq (t : Tables) (name : String) :
    Write.ensureList name t =
      .ok ((t.ensured name).1.id, { t with lists := (t.ensured name).2 }) := by
  unfold Write.ensureList ensured listNamed?
  cases t.lists.find? (·.name == name) <;> rfl

theorem name_of_find? {rows : List ListRow} {row : ListRow}
    (found : rows.find? (·.name == name) = some row) : row.name = name := by
  have same := List.find?_some found
  simpa using same

theorem name_ensured (t : Tables) (name : String) : (t.ensured name).1.name = name := by
  unfold ensured
  split
  · rename_i found
    exact name_of_find? found
  · rfl

theorem find?_ensured (t : Tables) (name : String) :
    (t.ensured name).2.find? (·.name == name) = some (t.ensured name).1 := by
  unfold ensured
  split
  · rename_i found
    exact found
  · rename_i missing
    simp [List.find?_append, missing]

theorem find?_ensured_ne (t : Tables) (ne : other ≠ name) :
    (t.ensured name).2.find? (·.name == other) = t.lists.find? (·.name == other) := by
  unfold ensured
  split
  · rfl
  · simp [List.find?_append, ne.symm]

theorem Sound.ensured (sound : t.Sound) (name : String) :
    { t with lists := (t.ensured name).2 }.Sound :=
  sound.ensureList (ensureList_eq t name)

/-- Rows of lists of different names have different ids. -/
theorem Sound.id_ne (sound : t.Sound) {row : ListRow}
    (found : t.lists.find? (·.name == other) = some row) (ne : other ≠ name) :
    row.id ≠ (t.ensured name).1.id := by
  have found' := found
  rw [← find?_ensured_ne t ne] at found'
  have distinct := (sound.ensured name).listIds
  rw [List.Nodup, List.pairwise_map] at distinct
  have named := name_of_find? found
  rcases eq_or_related_of_mem distinct (List.mem_of_find?_eq_some found')
    (List.mem_of_find?_eq_some (find?_ensured t name)) with same | apart | apart
  · rw [same, name_ensured] at named
    exact absurd named.symm ne
  · exact apart
  · exact fun same => apart same.symm

/-! ## A list with its contents -/

/-- What is stored under the name of a list. -/
structure Contents where
  row : ListRow
  members : PerFamily fun _ => List MemberRow
  unions : PerFamily fun _ => List UnionRow

/-- What is stored under a name, if there is a list of that name. -/
def stored? (t : Tables) (name : String) : Option Contents :=
  (t.lists.find? (·.name == name)).map fun row =>
    { row
      members := .ofFn fun f => t.membersOf f row.id
      unions := .ofFn fun f => (t.unions.get f).filter (·.list == row.id) }

/-- What a rebuild stores under a list. -/
def contents (t : Tables) (row : ListRow) (p : Predicate) : Contents where
  row := row
  members := .ofFn fun f => (t.chosen f p).map (·.asMember row.id)
  unions := .ofFn fun f => (t.coverOf f p).map (·.asUnion row.id)

/-- The tables after a rebuild of the named list. -/
def rebuilt (t : Tables) (name : String) (p : Predicate) : Tables :=
  let row := (t.ensured name).1
  { t with
    lists := (t.ensured name).2
    members := .ofFn fun f =>
      (t.members.get f).filter (·.list != row.id) ++ (t.contents row p).members.get f
    unions := .ofFn fun f =>
      (t.unions.get f).filter (·.list != row.id) ++ (t.contents row p).unions.get f }

theorem sameRecords_rebuilt (t : Tables) (name : String) (p : Predicate) :
    t.SameRecords (t.rebuilt name p) :=
  ⟨rfl, rfl, rfl, rfl⟩

theorem SameRecords.contents (same : t.SameRecords u) (row : ListRow) (p : Predicate) :
    u.contents row p = t.contents row p := by
  simp only [Tables.contents, same.chosen, same.coverOf]

theorem Sound.rebuilt (sound : t.Sound) (name : String) (p : Predicate) :
    (t.rebuilt name p).Sound :=
  (sound.ensured name).congr rfl rfl

section Replace

variable {α : Type} {key : α → RowId} {rows new : List α} {id : RowId}

theorem filter_replaced (all : ∀ a ∈ new, key a = id) :
    (rows.filter (key · != id) ++ new).filter (key · == id) = new := by
  rw [List.filter_append, List.filter_filter]
  have kept : new.filter (key · == id) = new :=
    List.filter_eq_self.mpr fun a member => beq_iff_eq.mpr (all a member)
  have gone : rows.filter (fun a => key a == id && key a != id) = [] := by
    refine List.filter_eq_nil_iff.mpr fun a _ both => ?_
    simp at both
  rw [kept, gone, List.nil_append]

theorem filter_replaced_ne (all : ∀ a ∈ new, key a = id) {kept : RowId} (ne : kept ≠ id) :
    (rows.filter (key · != id) ++ new).filter (key · == kept) = rows.filter (key · == kept) := by
  rw [List.filter_append, List.filter_filter]
  have gone : new.filter (key · == kept) = [] := by
    refine List.filter_eq_nil_iff.mpr fun a member same => ?_
    exact ne ((beq_iff_eq.mp same).symm.trans (all a member))
  rw [gone, List.append_nil]
  refine List.filter_congr fun a _ => ?_
  by_cases same : key a = kept
  · simp [same, ne]
  · simp [same]

end Replace

theorem members_contents_list (t : Tables) (row : ListRow) (p : Predicate) (f : Family) :
    ∀ m ∈ (t.contents row p).members.get f, m.list = row.id := by
  intro m member
  rw [contents, PerFamily.get_ofFn] at member
  obtain ⟨n, -, rfl⟩ := List.mem_map.mp member
  rfl

theorem unions_contents_list (t : Tables) (row : ListRow) (p : Predicate) (f : Family) :
    ∀ u ∈ (t.contents row p).unions.get f, u.list = row.id := by
  intro u member
  rw [contents, PerFamily.get_ofFn] at member
  obtain ⟨b, -, rfl⟩ := List.mem_map.mp member
  rfl

/-- **A rebuilt list** holds what its predicate selects and nothing else. -/
theorem stored?_rebuilt (t : Tables) (name : String) (p : Predicate) :
    (t.rebuilt name p).stored? name = some (t.contents (t.ensured name).1 p) := by
  have row : (t.rebuilt name p).lists.find? (·.name == name) = some (t.ensured name).1 :=
    find?_ensured t name
  rw [stored?, row, Option.map_some]
  congr 1
  have members : ∀ f, (t.rebuilt name p).membersOf f (t.ensured name).1.id =
      (t.contents (t.ensured name).1 p).members.get f := by
    intro f
    rw [membersOf, rebuilt, PerFamily.get_ofFn]
    exact filter_replaced (members_contents_list t _ p f)
  have unions : ∀ f, ((t.rebuilt name p).unions.get f).filter (·.list == (t.ensured name).1.id) =
      (t.contents (t.ensured name).1 p).unions.get f := by
    intro f
    rw [rebuilt, PerFamily.get_ofFn]
    exact filter_replaced (unions_contents_list t _ p f)
  simp only [members, unions]
  rfl

/-- A rebuild touches nothing that is stored under another name. -/
theorem stored?_rebuilt_ne (sound : t.Sound) (p : Predicate) (ne : other ≠ name) :
    (t.rebuilt name p).stored? other = t.stored? other := by
  have rows : (t.rebuilt name p).lists.find? (·.name == other) =
      t.lists.find? (·.name == other) := find?_ensured_ne t ne
  rw [stored?, stored?, rows]
  cases found : t.lists.find? (·.name == other) with
  | none => rfl
  | some row =>
    have apart := sound.id_ne found ne
    rw [Option.map_some, Option.map_some]
    congr 2
    · refine PerFamily.ext_get fun f => ?_
      rw [PerFamily.get_ofFn, PerFamily.get_ofFn, membersOf, rebuilt, PerFamily.get_ofFn]
      exact filter_replaced_ne (members_contents_list t _ p f) apart
    · refine PerFamily.ext_get fun f => ?_
      rw [PerFamily.get_ofFn, PerFamily.get_ofFn, rebuilt, PerFamily.get_ofFn]
      exact filter_replaced_ne (unions_contents_list t _ p f) apart

end Tables

end NetRegistry
