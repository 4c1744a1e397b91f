/-
# Proofs.Rebuild.Repeated -- a pass again, and a pass in another order

Without failing calls a pass is a sequence of rebuilds (`Tables.rebuiltAll`), and
what it reports can be read off the tables that it leaves (`all_calm`).

The rebuild of a list moves its rows to the end of their tables, so a second pass
does not leave the tables alone at every step.  It does as a whole: what a pass
makes of a table is the rows of other lists, followed by those of its lists in
build order (`replaced_eq`), and the ids of its lists are settled after the first
pass (`find?_rebuiltAll`).

Definitions in another order are built in another order, and lists may get other
ids.  The predicates are the same (`Definition.compile_perm`), so the fates of the
turns are.

**Main theorem** `rebuild_all_settled`.
-/
import NetRegistry.Proofs.Listing.Reordered
import NetRegistry.Proofs.Rebuild.Atomic

namespace NetRegistry

set_option autoImplicit false

/-! ## Rows that give way to others -/

section Replaced

variable {α : Type} {key : α → RowId} {parts : List (RowId × List α)}

/-- Rows of which those with certain keys give way to others, one key after the other. -/
def replaced (key : α → RowId) : List (RowId × List α) → List α → List α
  | [], rows => rows
  | part :: rest, rows => replaced key rest (rows.filter (key · != part.1) ++ part.2)

/-- When the keys are distinct, the rows with other keys stay in front and the new ones follow. -/
theorem replaced_eq (own : ∀ part ∈ parts, ∀ a ∈ part.2, key a = part.1)
    (distinct : (parts.map (·.1)).Nodup) (rows : List α) :
    replaced key parts rows =
      rows.filter (fun a => !(parts.map (·.1)).contains (key a)) ++ parts.flatMap (·.2) := by
  induction parts generalizing rows with
  | nil => simp [replaced]
  | cons part rest ih =>
    rw [List.map_cons, List.nodup_cons] at distinct
    -- The rows that come in have a key that is not replaced again.
    have stay : part.2.filter (fun a => !(rest.map (·.1)).contains (key a)) = part.2 := by
      refine List.filter_eq_self.mpr fun a new => ?_
      rw [own part List.mem_cons_self a new]
      simpa using distinct.1
    rw [replaced, ih (fun part member => own part (List.mem_cons_of_mem _ member)) distinct.2,
      List.filter_append, stay, List.filter_filter, List.append_assoc, List.flatMap_cons]
    congr 1
    refine List.filter_congr fun a _ => ?_
    rw [List.map_cons, List.contains_cons, Bool.not_or, Bool.and_comm]
    rfl

/-- To replace the rows again by the same changes nothing. -/
theorem replaced_replaced (own : ∀ part ∈ parts, ∀ a ∈ part.2, key a = part.1)
    (distinct : (parts.map (·.1)).Nodup) (rows : List α) :
    replaced key parts (replaced key parts rows) = replaced key parts rows := by
  have gone : (parts.flatMap (·.2)).filter (fun a => !(parts.map (·.1)).contains (key a)) = [] := by
    refine List.filter_eq_nil_iff.mpr fun a member absent => ?_
    obtain ⟨part, inside, new⟩ := List.mem_flatMap.mp member
    rw [own part inside a new] at absent
    simp only [Bool.not_eq_true', List.contains_eq_mem, decide_eq_false_iff_not] at absent
    exact absent (List.mem_map.mpr ⟨part, inside, rfl⟩)
  rw [replaced_eq own distinct, replaced_eq own distinct, List.filter_append, gone,
    List.append_nil, List.filter_filter]
  simp only [Bool.and_self]

end Replaced

namespace Tables

variable {t u : Tables} {name : String} {row : ListRow} {jobs : List (String × Predicate)}

/-! ## Lists rebuilt one after the other -/

/-- The tables after lists were rebuilt one after the other. -/
def rebuiltAll (t : Tables) : List (String × Predicate) → Tables
  | [] => t
  | job :: rest => (t.rebuilt job.1 job.2).rebuiltAll rest

theorem sameRecords_rebuiltAll (t : Tables) (jobs : List (String × Predicate)) :
    t.SameRecords (t.rebuiltAll jobs) := by
  induction jobs generalizing t with
  | nil => exact .refl t
  | cons job rest ih => exact (sameRecords_rebuilt t job.1 job.2).trans (ih _)

theorem Sound.rebuiltAll (sound : t.Sound) (jobs : List (String × Predicate)) :
    (t.rebuiltAll jobs).Sound := by
  induction jobs generalizing t with
  | nil => exact sound
  | cons job rest ih => exact ih (sound.rebuilt job.1 job.2)

theorem ensured_of_found (found : t.lists.find? (·.name == name) = some row) :
    t.ensured name = (row, t.lists) := by
  rw [ensured, found]

/-- A list keeps its row when lists are rebuilt. -/
theorem find?_rebuilt (found : t.lists.find? (·.name == name) = some row) (other : String)
    (p : Predicate) : (t.rebuilt other p).lists.find? (·.name == name) = some row := by
  show (t.ensured other).2.find? (·.name == name) = some row
  by_cases same : name = other
  · subst same
    rw [ensured_of_found found]
    exact found
  · rw [find?_ensured_ne t same]
    exact found

theorem find?_rebuiltAll (found : t.lists.find? (·.name == name) = some row)
    (jobs : List (String × Predicate)) :
    (t.rebuiltAll jobs).lists.find? (·.name == name) = some row := by
  induction jobs generalizing t with
  | nil => exact found
  | cons job rest ih => exact ih (find?_rebuilt found job.1 job.2)

/-- The row that the rebuild of a list gives it is the one that it has in the end. -/
theorem find?_rebuilt_rebuiltAll (t : Tables) (name : String) (p : Predicate)
    (rest : List (String × Predicate)) :
    ((t.rebuilt name p).rebuiltAll rest).lists.find? (·.name == name) =
      some (t.ensured name).1 :=
  find?_rebuiltAll (find?_ensured t name) rest

theorem ensured_rebuilt_rebuiltAll (t : Tables) (name : String) (p : Predicate)
    (rest : List (String × Predicate)) :
    (((t.rebuilt name p).rebuiltAll rest).ensured name).1 = (t.ensured name).1 := by
  rw [ensured_of_found (find?_rebuilt_rebuiltAll t name p rest)]

/-- Every list that was rebuilt is there. -/
theorem found_rebuiltAll (t : Tables) (jobs : List (String × Predicate)) :
    ∀ job ∈ jobs, ∃ row, (t.rebuiltAll jobs).lists.find? (·.name == job.1) = some row := by
  induction jobs generalizing t with
  | nil => intro job member; cases member
  | cons first rest ih =>
    intro job member
    rcases List.mem_cons.mp member with rfl | later
    · exact ⟨_, find?_rebuilt_rebuiltAll t job.1 job.2 rest⟩
    · exact ih _ job later

/-- Lists that are there are not added again. -/
theorem lists_rebuiltAll_of_found
    (found : ∀ job ∈ jobs, ∃ row, t.lists.find? (·.name == job.1) = some row) :
    (t.rebuiltAll jobs).lists = t.lists := by
  induction jobs generalizing t with
  | nil => rfl
  | cons job rest ih =>
    obtain ⟨row, here⟩ := found job List.mem_cons_self
    have same : (t.rebuilt job.1 job.2).lists = t.lists :=
      congrArg Prod.snd (ensured_of_found here)
    have later := ih (t := t.rebuilt job.1 job.2) fun other member => by
      rw [same]
      exact found other (List.mem_cons_of_mem _ member)
    exact later.trans same

/-- Lists of different names that are there have different ids. -/
theorem Sound.ids_nodup (sound : t.Sound) (distinct : (jobs.map (·.1)).Nodup)
    (found : ∀ job ∈ jobs, ∃ row, t.lists.find? (·.name == job.1) = some row) :
    (jobs.map fun job => (t.ensured job.1).1.id).Nodup := by
  rw [List.Nodup, List.pairwise_map] at distinct ⊢
  refine distinct.imp_of_mem fun {a b} memberA _ ne => ?_
  obtain ⟨row, here⟩ := found a memberA
  rw [ensured_of_found here]
  exact sound.id_ne here ne

/-! ## The rows of lists -/

section Rows

variable {α : Type} {key : α → RowId} {rows : Tables → List α} {view : Contents → List α}

/-- Rows of one kind that belong to lists: the rebuild of a list puts what `view` takes of its
contents in the place of its rows. -/
structure ListRows (key : α → RowId) (rows : Tables → List α) (view : Contents → List α) :
    Prop where
  rebuilt : ∀ t name p, rows (rebuilt t name p) =
    (rows t).filter (key · != (t.ensured name).1.id) ++ view (t.contents (t.ensured name).1 p)
  own : ∀ t row p, ∀ a ∈ view (contents t row p), key a = row.id

theorem listRows_members (f : Family) :
    ListRows (·.list) (fun t => t.members.get f) (fun c => c.members.get f) :=
  ⟨fun t name p => by rw [rebuilt, PerFamily.get_ofFn],
    fun t row p => members_contents_list t row p f⟩

theorem listRows_unions (f : Family) :
    ListRows (·.list) (fun t => t.unions.get f) (fun c => c.unions.get f) :=
  ⟨fun t name p => by rw [rebuilt, PerFamily.get_ofFn],
    fun t row p => unions_contents_list t row p f⟩

/-- What rebuilds store of one kind of rows, with the ids of their lists. -/
def parts (u : Tables) (view : Contents → List α) (jobs : List (String × Predicate)) :
    List (RowId × List α) :=
  jobs.map fun job => ((u.ensured job.1).1.id, view (u.contents (u.ensured job.1).1 job.2))

theorem map_fst_parts (u : Tables) (view : Contents → List α) (jobs : List (String × Predicate)) :
    (u.parts view jobs).map (·.1) = jobs.map fun job => (u.ensured job.1).1.id := by
  rw [parts, List.map_map]
  rfl

namespace ListRows

/-- Rebuilds replace the rows of their lists, whose ids are those in the end. -/
theorem rebuiltAll (kind : ListRows key rows view) (t : Tables)
    (jobs : List (String × Predicate)) :
    rows (t.rebuiltAll jobs) = replaced key ((t.rebuiltAll jobs).parts view jobs) (rows t) := by
  induction jobs generalizing t with
  | nil => rfl
  | cons job rest ih =>
    have same := (sameRecords_rebuilt t job.1 job.2).trans (sameRecords_rebuiltAll _ rest)
    rw [Tables.rebuiltAll, ih, kind.rebuilt, parts, parts, List.map_cons, replaced, same.contents,
      ensured_rebuilt_rebuiltAll]

theorem rebuiltAll_again (kind : ListRows key rows view) (sound : t.Sound)
    (distinct : (jobs.map (·.1)).Nodup) :
    rows ((t.rebuiltAll jobs).rebuiltAll jobs) = rows (t.rebuiltAll jobs) := by
  have found := found_rebuiltAll t jobs
  have lists := lists_rebuiltAll_of_found found
  have same := sameRecords_rebuiltAll (t.rebuiltAll jobs) jobs
  -- The second time the lists have the ids that they got the first time.
  have settled : ((t.rebuiltAll jobs).rebuiltAll jobs).parts view jobs =
      (t.rebuiltAll jobs).parts view jobs := by
    simp only [parts, same.contents, ensured, lists]
  have ids := (sound.rebuiltAll jobs).ids_nodup distinct found
  rw [← map_fst_parts _ view] at ids
  rw [kind.rebuiltAll, settled, kind.rebuiltAll t]
  refine replaced_replaced (fun part member a new => ?_) ids _
  obtain ⟨job, -, rfl⟩ := List.mem_map.mp member
  exact kind.own _ _ _ a new

end ListRows

end Rows

/-- Tables with the same records, lists and rows of lists are the same. -/
theorem SameRecords.eq_of_lists (same : t.SameRecords u) (lists : u.lists = t.lists)
    (members : ∀ f, u.members.get f = t.members.get f)
    (unions : ∀ f, u.unions.get f = t.unions.get f) : u = t := by
  obtain ⟨registrars, orgs, netblocks, coverage⟩ := same
  have members := PerFamily.ext_get members
  have unions := PerFamily.ext_get unions
  cases t
  cases u
  subst registrars orgs netblocks coverage lists members unions
  rfl

/-- **Rebuilding lists again** changes nothing. -/
theorem rebuiltAll_again (sound : t.Sound) (distinct : (jobs.map (·.1)).Nodup) :
    (t.rebuiltAll jobs).rebuiltAll jobs = t.rebuiltAll jobs := by
  have same := sameRecords_rebuiltAll (t.rebuiltAll jobs) jobs
  have lists := lists_rebuiltAll_of_found (found_rebuiltAll t jobs)
  exact same.eq_of_lists lists (fun f => (listRows_members f).rebuiltAll_again sound distinct)
    fun f => (listRows_unions f).rebuiltAll_again sound distinct

end Tables

/-! ## Lists that are the same but for their ids -/

/-- The same outcome, for lists whose ids may differ. -/
inductive Outcome.Alike : Outcome → Outcome → Prop
  | committed {a b : ListStats} (v4 : a.v4 = b.v4) (v6 : a.v6 = b.v6) :
      Alike (.committed a) (.committed b)
  | rolledBack (e : Error) : Alike (.rolledBack e) (.rolledBack e)
  | skipped : Alike .skipped .skipped

namespace Tables

variable {t u : Tables} {name : String}

/-- The list is in both or in neither, with the same contents under ids that may differ. -/
def StoredAlike (t u : Tables) (name : String) : Prop :=
  Option.Rel Contents.Alike (t.stored? name) (u.stored? name)

theorem storedAlike_of_eq (same : t.stored? name = u.stored? name) : t.StoredAlike u name := by
  rw [StoredAlike, same]
  cases u.stored? name with
  | none => exact .none
  | some found => exact .some ⟨fun _ => rfl, fun _ => rfl⟩

theorem SameRecords.symm (same : t.SameRecords u) : u.SameRecords t :=
  ⟨same.registrars.symm, same.orgs.symm, same.netblocks.symm, same.coverage.symm⟩

end Tables

namespace Rebuild

variable {db : Database} {imports : List Importer} {defs others : List Definition} {t u : Tables}
  {s v : Session}

/-! ## What a pass without failing calls reports -/

/-- The definitions that select anything, with their predicates. -/
def jobs (defs ds : List Definition) : List (String × Predicate) :=
  ds.filterMap fun d => (Definition.compile defs d.name).1.map (d.name, ·)

/-- What a pass that leaves these tables reports of a definition. -/
def told (u : Tables) (defs : List Definition) (d : Definition) : Outcome :=
  match (Definition.compile defs d.name).1 with
  | none => .skipped
  | some p => .committed (statsOf u (u.ensured d.name).1.id p)

section Jobs

variable {d : Definition} {ds : List Definition} {p : Predicate}

theorem jobs_cons_of_empty (empty : (Definition.compile defs d.name).1 = none) :
    jobs defs (d :: ds) = jobs defs ds :=
  List.filterMap_cons_none (by rw [empty]; rfl)

theorem jobs_cons_of_compiled (compiled : (Definition.compile defs d.name).1 = some p) :
    jobs defs (d :: ds) = (d.name, p) :: jobs defs ds :=
  List.filterMap_cons_some (by rw [compiled]; rfl)

theorem jobs_sublist (defs ds : List Definition) :
    ((jobs defs ds).map (·.1)).Sublist (ds.map (·.name)) := by
  induction ds with
  | nil => exact .slnil
  | cons d rest ih =>
    cases compiled : (Definition.compile defs d.name).1 with
    | none =>
      rw [jobs_cons_of_empty compiled]
      exact ih.cons _
    | some p =>
      rw [jobs_cons_of_compiled compiled]
      exact ih.cons_cons _

theorem told_of_empty (empty : (Definition.compile defs d.name).1 = none) :
    told u defs d = .skipped := by
  rw [told, empty]

theorem told_of_compiled (compiled : (Definition.compile defs d.name).1 = some p) :
    told u defs d = .committed (statsOf u (u.ensured d.name).1.id p) := by
  rw [told, compiled]

end Jobs

theorem definition_skips (mode : FetchMode) {d : Definition}
    (empty : (Definition.compile defs d.name).1 = none) :
    (definition .none mode defs d s).1 = .skipped ∧
      (definition .none mode defs d s).2.db = s.db := by
  unfold definition
  dsimp only
  rw [empty]
  exact ⟨rfl, Session.notedAll_db _⟩

theorem definition_commits (mode : FetchMode) {d : Definition} {p : Predicate} (sound : t.Sound)
    (closed : s.db = ⟨t, none⟩) (compiled : (Definition.compile defs d.name).1 = some p) :
    (definition .none mode defs d s).1 = .committed (statsOf t (t.ensured d.name).1.id p) ∧
      (definition .none mode defs d s).2.db = ⟨t.rebuilt d.name p, none⟩ := by
  unfold definition
  dsimp only
  rw [compiled]
  exact list_commits mode sound ((Session.notedAll_db _).trans closed) d.name p

/-- Definitions are rebuilt one after the other, and the tables in the end tell what is
reported. -/
theorem definitions_calm (mode : FetchMode) (defs ds : List Definition) (sound : t.Sound)
    (closed : s.db = ⟨t, none⟩) :
    (definitions .none mode defs ds s).2.db = ⟨t.rebuiltAll (jobs defs ds), none⟩ ∧
      (definitions .none mode defs ds s).1 =
        ds.map fun d => (d.name, told (t.rebuiltAll (jobs defs ds)) defs d) := by
  induction ds generalizing s t with
  | nil => exact ⟨closed, rfl⟩
  | cons d rest ih =>
    rw [definitions, List.map_cons]
    dsimp only
    cases compiled : (Definition.compile defs d.name).1 with
    | none =>
      obtain ⟨outcome, db⟩ := definition_skips (s := s) mode compiled
      obtain ⟨after, reported⟩ := ih sound (db.trans closed)
      rw [jobs_cons_of_empty compiled, after, reported, outcome, told_of_empty compiled]
      exact ⟨rfl, rfl⟩
    | some p =>
      obtain ⟨outcome, db⟩ := definition_commits mode sound closed compiled
      obtain ⟨after, reported⟩ := ih (sound.rebuilt d.name p) db
      -- Later rebuilds change neither what the predicate selects nor the id of the list.
      have later := (Tables.sameRecords_rebuilt t d.name p).trans
        (Tables.sameRecords_rebuiltAll _ (jobs defs rest))
      rw [jobs_cons_of_compiled compiled, Tables.rebuiltAll, after, reported, outcome,
        told_of_compiled compiled, Tables.ensured_rebuilt_rebuiltAll, statsOf_congr later]
      exact ⟨rfl, rfl⟩

/-- **A pass without failing calls**, read off the tables that it leaves. -/
theorem all_calm (mode : FetchMode) (defs : List Definition) (sound : t.Sound)
    (closed : s.db = ⟨t, none⟩) :
    (all .none mode defs s).2.db = ⟨t.rebuiltAll (jobs defs (resolve defs).order), none⟩ ∧
      (all .none mode defs s).1 =
        ⟨(resolve defs).order.map fun d =>
          (d.name, told (t.rebuiltAll (jobs defs (resolve defs).order)) defs d),
          (resolve defs).unresolved⟩ := by
  have opens : (opened defs s).db = ⟨t, none⟩ := (Session.notedAll_db _).trans closed
  obtain ⟨after, reported⟩ := definitions_calm mode defs (resolve defs).order sound opens
  refine ⟨after, ?_⟩
  show Report.mk _ _ = _
  rw [← reported]
  rfl

/-- A pass over the tables that a pass has left reports the same and leaves the same. -/
theorem all_again (mode again : FetchMode) (distinct : (defs.map (·.name)).Nodup)
    (sound : t.Sound) (closed : s.db = ⟨t, none⟩) (on : v.db = (all .none mode defs s).2.db) :
    (all .none again defs v).1 = (all .none mode defs s).1 ∧
      (all .none again defs v).2.db = (all .none mode defs s).2.db := by
  have names := (resolve_order_perm defs).map (·.name)
  have once := (names.nodup_iff.mpr distinct).sublist (jobs_sublist defs _)
  obtain ⟨after, reported⟩ := all_calm mode defs sound closed
  obtain ⟨after', reported'⟩ := all_calm again defs (sound.rebuiltAll _) (on.trans after)
  rw [Tables.rebuiltAll_again sound once] at after' reported'
  exact ⟨reported'.trans reported.symm, after'.trans after.symm⟩

/-! ## Passes over definitions in another order -/

/-- Turns of one name come out alike when the list compiles alike. -/
theorem Fate.alike {w : Tables} {turn twin : Turn} (first : Fate .none defs t u turn)
    (second : Fate .none others t w twin) (named : twin.name = turn.name)
    (same : Definition.compile defs = Definition.compile others) :
    turn.outcome.Alike twin.outcome ∧ u.StoredAlike w turn.name := by
  cases first with
  | rolledBack _ _ struck => exact absurd struck (none_unstruck turn)
  | skipped empty outcome _ kept =>
    cases second with
    | rolledBack _ _ struck => exact absurd struck (none_unstruck twin)
    | committed compiled' => rw [named, ← same, empty] at compiled'; cases compiled'
    | skipped _ outcome' _ kept' =>
      rw [outcome, outcome']
      rw [named] at kept'
      exact ⟨.skipped, Tables.storedAlike_of_eq (kept.trans kept'.symm)⟩
  | @committed p row compiled outcome _ stored =>
    cases second with
    | rolledBack _ _ struck => exact absurd struck (none_unstruck twin)
    | skipped empty' => rw [named, ← same, compiled] at empty'; cases empty'
    | @committed q row' compiled' outcome' _ stored' =>
      rw [named, ← same, compiled] at compiled'
      cases compiled'
      rw [outcome, outcome', Tables.StoredAlike, stored, ← named, stored']
      exact ⟨.committed rfl rfl, .some (Tables.contents_alike t p row row')⟩

/-- Two passes made the same of every list, whatever ids the lists got. -/
structure SameLists (first second : Report × Session) : Prop where
  /-- The same lists are reported, in some order. -/
  names : (first.1.lists.map (·.1)).Perm (second.1.lists.map (·.1))
  outcomes : ∀ name a b, (name, a) ∈ first.1.lists → (name, b) ∈ second.1.lists → a.Alike b
  unresolved : first.1.unresolved.Perm second.1.unresolved
  stored : ∀ name, first.2.db.tables.StoredAlike second.2.db.tables name
  records : first.2.db.tables.SameRecords second.2.db.tables
  /-- Neither leaves a transaction open. -/
  closed : first.2.db.saved = none ∧ second.2.db.saved = none

/-- The order of the definitions does not matter to any list. -/
theorem all_reordered (mode other : FetchMode) (distinct : (defs.map (·.name)).Nodup)
    (perm : defs.Perm others) (sound : t.Sound) (closed : s.db = ⟨t, none⟩)
    (on : v.db = ⟨t, none⟩) : SameLists (all .none mode defs s) (all .none other others v) := by
  have names := perm.map (·.name)
  have distinct' := names.nodup_iff.mp distinct
  have same := Definition.compile_perm distinct perm
  obtain ⟨u, after, -, sameU, keptU, fates⟩ :=
    all_pass mode FaultPlan.none_works distinct sound closed
  obtain ⟨w, after', -, sameW, keptW, fates'⟩ :=
    all_pass other FaultPlan.none_works distinct' sound on
  have reported := (names_all .none mode defs s).trans
    (names.trans (names_all .none other others v).symm)
  refine ⟨reported, ?_, resolve_unresolved_perm distinct perm, ?_, ?_, ?_⟩
  · intro name a b first second
    obtain ⟨turn, member, rfl, rfl⟩ := exists_turn_of_reported first
    obtain ⟨twin, there, named, rfl⟩ := exists_turn_of_reported second
    exact ((fates turn member).alike (fates' twin there) named same).1
  · intro name
    rw [after, after']
    by_cases declared : name ∈ defs.map (·.name)
    · obtain ⟨turn, member, rfl⟩ := exists_turn_of_declared .none mode s declared
      obtain ⟨twin, there, named⟩ :=
        exists_turn_of_declared .none other v (names.mem_iff.mp declared)
      exact ((fates turn member).alike (fates' twin there) named same).2
    · have kept := keptU name declared
      have kept' := keptW name fun member => declared (names.mem_iff.mpr member)
      exact Tables.storedAlike_of_eq (kept.trans kept'.symm)
  · rw [after, after']
    exact sameU.symm.trans sameW
  · rw [after, after']
    exact ⟨rfl, rfl⟩

/-- **A pass is settled** when it ends.  Another pass over what it left reports the same and
changes nothing, and a pass over the same definitions in another order would have made the same of
every list. -/
theorem rebuild_all_settled (mode : FetchMode) (reached : Service.Reachable db imports)
    (closed : db.saved = none) (distinct : (defs.map (·.name)).Nodup) (on : s.db = db) :
    (∀ again v, v.db = (all .none mode defs s).2.db →
      (all .none again defs v).1 = (all .none mode defs s).1 ∧
        (all .none again defs v).2.db = (all .none mode defs s).2.db) ∧
    ∀ others other v, defs.Perm others → v.db = db →
      SameLists (all .none mode defs s) (all .none other others v) := by
  have sound := reached.database.sound.1
  have whole : db = ⟨db.tables, none⟩ := by rw [← closed]
  have start := on.trans whole
  constructor
  · intro again v left
    exact all_again mode again distinct sound start left
  · intro others other v perm onto
    exact all_reordered mode other distinct perm sound start (onto.trans whole)

/-- Lists of which two include each other and one refers to a list that is not there. -/
def tangled : List Definition :=
  [(Definition.named "even").including "odd" |>.wanting .netname "A-2",
    (Definition.named "odd").including "even" |>.wanting .netname "A-1",
    (Definition.named "rest").including "missing" |>.excluding "odd" |>.wanting .netname "%"]

theorem rebuild_all_settled_tangled :
    (Service.Reachable imported.db imported.importer.toList ∧ imported.db.saved = none ∧
      (tangled.map (·.name)).Nodup ∧ tangled.Perm tangled.reverse) ∧
    (let first := all .none .stream tangled (.on imported.db)
     let second := all .none .buffered tangled (.on first.2.db)
     (second.1 = first.1 ∧ second.2.db = first.2.db) ∧
       SameLists first (all .none .buffered tangled.reverse (.on imported.db))) := by
  have distinct : (tangled.map (·.name)).Nodup := by decide
  have perm : tangled.Perm tangled.reverse := (List.reverse_perm tangled).symm
  obtain ⟨again, reordered⟩ :=
    rebuild_all_settled (s := .on imported.db) .stream imported_reachable rfl distinct rfl
  exact ⟨⟨imported_reachable, rfl, distinct, perm⟩, again .buffered _ rfl,
    reordered _ .buffered _ perm rfl⟩

end Rebuild

end NetRegistry
