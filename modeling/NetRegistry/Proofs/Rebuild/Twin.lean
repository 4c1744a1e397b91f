/-
# Proofs.Rebuild.Twin -- two passes side by side

Two sessions are twins (`Session.Twin`) when their tables, and those to go back to,
differ in the coverage alone and the calls that are still to come have the same
fates.  No statement of a list looks at the coverage (`Write.Blind`), so whatever a
pass does to one of them it does to the other, failing calls, failing rollbacks and
all.  Since members are copies of stored netblocks, the two may even scan in
different modes.

* `agree_call`: one call on twins.
* `agree_scanMembership`: a scan, in whatever modes.

**Main theorem** `all_twin`: a pass over all lists reports the same of twins and
leaves twins.
-/
import NetRegistry.Proofs.Agreement
import NetRegistry.Proofs.Rebuild.Members
import NetRegistry.Proofs.Rebuild.Reachable
import NetRegistry.Proofs.Store.Session

namespace NetRegistry

set_option autoImplicit false

open Fallible (Agree Beside)

/-- The coverage of both families. -/
abbrev Coverage : Type := PerFamily fun _ => List BlockRow

/-! ## Statements -/

namespace Write

/-- The statement does the same whatever the coverage is, and leaves it alone. -/
def Blind {α : Type} (stmt : Statement α) : Prop :=
  ∀ t held, stmt { t with coverage := held } =
    (stmt t).map fun done => (done.1, { done.2 with coverage := held })

theorem blind_ensureList (name : String) : Blind (ensureList name) := by
  intro t held
  have same : ({ t with coverage := held } : Tables).listNamed? name = t.listNamed? name := rfl
  unfold ensureList
  rw [same]
  cases t.listNamed? name <;> rfl

theorem blind_clearList (f : Family) (list : RowId) : Blind (clearList f list) := fun _ _ => rfl

theorem blind_populate (f : Family) (list : RowId) (p : Predicate) :
    Blind (populate f list p) := by
  intro t held
  have same : selects { t with coverage := held } p = selects t p := rfl
  have members : ({ t with coverage := held } : Tables).membersOf f list = t.membersOf f list := rfl
  have lists : ({ t with coverage := held } : Tables).hasList list = t.hasList list := rfl
  unfold populate
  dsimp only
  rw [same, members, lists]
  split
  · rfl
  · split <;> rfl

theorem blind_insertUnionBlock {f : Family} (list : RowId) (b : Block f) :
    Blind (insertUnionBlock list b) := by
  intro t held
  have lists : ({ t with coverage := held } : Tables).hasList list = t.hasList list := rfl
  unfold insertUnionBlock
  dsimp only
  rw [lists]
  split
  · rfl
  · split <;> rfl

end Write

/-! ## Tables and databases -/

/-- The tables are the same but for the coverages, which `C` relates. -/
structure Tables.Twin (C : Coverage → Coverage → Prop) (t u : Tables) : Prop where
  rest : u = { t with coverage := u.coverage }
  coverage : C t.coverage u.coverage

/-- Of two databases, the first one reachable, the tables and those to go back to are twins. -/
structure Database.Twin (C : Coverage → Coverage → Prop) (db db' : Database) : Prop where
  reached : db.Reachable
  tables : db.tables.Twin C db'.tables
  saved : Option.Rel (Tables.Twin C) db.saved db'.saved

namespace Database

variable {C : Coverage → Coverage → Prop} {db db' : Database} {α : Type}

theorem agree_begin : Agree (Twin C) begin begin := by
  rintro ⟨t, saved⟩ ⟨t', saved'⟩ twin
  cases twin.saved with
  | none => exact ⟨rfl, twin.reached.begin, twin.tables, .some twin.tables⟩
  | some _ => exact ⟨rfl, twin⟩

theorem agree_commit : Agree (Twin C) commit commit := by
  rintro ⟨t, saved⟩ ⟨t', saved'⟩ twin
  cases twin.saved with
  | none => exact ⟨rfl, twin⟩
  | some _ => exact ⟨rfl, twin.reached.commit, twin.tables, .none⟩

theorem agree_rollback : Agree (Twin C) rollback rollback := by
  rintro ⟨t, saved⟩ ⟨t', saved'⟩ twin
  cases twin.saved with
  | none => exact ⟨rfl, twin⟩
  | some back => exact ⟨rfl, twin.reached.rollback, back, .none⟩

theorem agree_exec {stmt : Statement α} (blind : Write.Blind stmt)
    (step : ∀ t a u, stmt t = .ok (a, u) → t.Step u) : Agree (Twin C) (exec stmt) (exec stmt) := by
  rintro ⟨t, saved⟩ ⟨t', saved'⟩ twin
  obtain ⟨rest, coverage⟩ := twin.tables
  have seen := blind t t'.coverage
  have kept := blind t t.coverage
  change t' = { t with coverage := t'.coverage } at rest
  rw [← rest] at seen
  show (exec stmt ⟨t, saved⟩).1 = (exec stmt ⟨t', saved'⟩).1 ∧
    Twin C (exec stmt ⟨t, saved⟩).2 (exec stmt ⟨t', saved'⟩).2
  unfold exec
  dsimp only
  cases ran : stmt t with
  | error e =>
    rw [ran] at seen
    rw [seen]
    exact ⟨rfl, twin⟩
  | ok done =>
    obtain ⟨a, u⟩ := done
    -- Taking the coverage that is there shows that the statement leaves it alone.
    change stmt t = _ at kept
    rw [ran] at seen kept
    rw [seen]
    obtain ⟨-, held⟩ := Prod.mk.inj (Except.ok.inj kept)
    refine ⟨rfl, twin.reached.step (step t a u ran), ⟨rfl, ?_⟩, twin.saved⟩
    rw [held]
    exact coverage

theorem agree_query {q : Tables → Except StorageError α}
    (blind : ∀ t held, q { t with coverage := held } = q t) :
    Agree (Twin C) (query q) (query q) := by
  intro db db' twin
  refine ⟨?_, twin⟩
  show q db.tables = q db'.tables
  rw [twin.tables.rest]
  exact (blind _ _).symm

end Database

/-! ## Sessions -/

namespace Session

/-- The databases are twins, and the calls that are still to come have the same fates. -/
structure Twin (C : Coverage → Coverage → Prop) (plan plan' : FaultPlan) (s s' : Session) :
    Prop where
  db : s.db.Twin C s'.db
  fates : ∀ m n, plan m (s.callCount m + n) = plan' m (s'.callCount m + n)

variable {C : Coverage → Coverage → Prop} {plan plan' : FaultPlan} {s s' : Session} {α τ : Type}
  {f : Family}

theorem Twin.noted (twin : Twin C plan plan' s s') (line line' : LogLine) :
    Twin C plan plan' (s.noted line) (s'.noted line') :=
  ⟨twin.db, twin.fates⟩

theorem Twin.notedAll (twin : Twin C plan plan' s s') (lines : List LogLine) :
    Twin C plan plan' (s.notedAll lines) (s'.notedAll lines) := by
  induction lines generalizing s s' with
  | nil => exact twin
  | cons line rest ih => exact ih (twin.noted line line)

/-- The session once a call is recorded. -/
def made (s : Session) (c : Call) : Session := { s with calls := c :: s.calls }

theorem callCount_made (s : Session) (c : Call) (m : Method) :
    (s.made c).callCount m = s.callCount m + if c.method = m then 1 else 0 := by
  unfold callCount made
  rw [List.countP_cons]
  simp only [beq_iff_eq]

/-- A call of the same method on both sides. -/
theorem Twin.made (twin : Twin C plan plan' s s') {c c' : Call} (method : c'.method = c.method) :
    Twin C plan plan' (s.made c) (s'.made c') := by
  refine ⟨twin.db, fun m n => ?_⟩
  rw [callCount_made, callCount_made, method, Nat.add_assoc, Nat.add_assoc]
  exact twin.fates m _

/-- A call on twins fails on both sides or does its work on both. -/
theorem agree_call {c c' : Call} (method : c'.method = c.method)
    {x y : Fallible Database StorageError α} (agree : Agree (Database.Twin C) x y) :
    Agree (Twin C plan plan') (call plan c x) (call plan' c' y) := by
  intro s s' twin
  have recorded := twin.made method
  have fate : plan' c'.method (s'.callCount c'.method) =
      plan c.method (s.callCount c.method) := by
    rw [method]
    exact (twin.fates c.method 0).symm
  cases struck : plan c.method (s.callCount c.method) with
  | some e =>
    rw [call_struck x struck, call_struck y (fate.trans struck)]
    exact ⟨rfl, recorded⟩
  | none =>
    rw [call_unstruck x struck, call_unstruck y (fate.trans struck)]
    obtain ⟨same, after⟩ := agree s.db s'.db twin.db
    exact ⟨congrArg (Except.mapError Error.storage) same, after, recorded.fates⟩

theorem agree_begin : Agree (Twin C plan plan') (begin plan) (begin plan') :=
  agree_call rfl Database.agree_begin

theorem agree_commit : Agree (Twin C plan plan') (commit plan) (commit plan') :=
  agree_call rfl Database.agree_commit

theorem agree_rollback : Agree (Twin C plan plan') (rollback plan) (rollback plan') :=
  agree_call rfl Database.agree_rollback

theorem agree_ensureList (name : String) :
    Agree (Twin C plan plan') (ensureList plan name) (ensureList plan' name) :=
  agree_call rfl (Database.agree_exec (Write.blind_ensureList name) fun _ _ _ => .ensureList)

theorem agree_clearList (list : RowId) :
    Agree (Twin C plan plan') (clearList plan f list) (clearList plan' f list) :=
  agree_call rfl (Database.agree_exec (Write.blind_clearList f list) fun _ _ _ => .clearList)

theorem agree_populateMembership (list : RowId) (p : Predicate) :
    Agree (Twin C plan plan') (populateMembership plan f list p)
      (populateMembership plan' f list p) :=
  agree_call rfl (Database.agree_exec (Write.blind_populate f list p) fun _ _ _ => .populate)

theorem agree_insertUnionBlock (list : RowId) (b : Block f) :
    Agree (Twin C plan plan') (insertUnionBlock plan list b) (insertUnionBlock plan' list b) :=
  agree_call rfl
    (Database.agree_exec (Write.blind_insertUnionBlock list b) fun _ _ _ => .insertUnionBlock)

/-- A reading call that succeeds has read the tables. -/
theorem call_query_eq_ok {c : Call} {q : Tables → Except StorageError α} {a : α} {u : Session}
    (ran : (call plan c (Database.query q)).run s = (.ok a, u)) : q s.db.tables = .ok a := by
  cases struck : plan c.method (s.callCount c.method) with
  | some e =>
    rw [call_struck _ struck] at ran
    cases ran
  | none =>
    rw [call_unstruck _ struck] at ran
    obtain ⟨ok, -⟩ := Prod.mk.inj ran
    change (q s.db.tables).mapError Error.storage = .ok a at ok
    cases read : q s.db.tables with
    | error e =>
      rw [read] at ok
      cases ok
    | ok b =>
      rw [read] at ok
      cases ok
      rfl

/-- A scan in whatever modes hands both sinks the same ranges. -/
theorem agree_scanMembership (list : RowId) (mode mode' : FetchMode)
    {sink sink' : Range f → Fallible (τ × Session) Error Unit}
    (agree : ∀ r, Agree (Beside (Twin C plan plan')) (sink r) (sink' r)) :
    Agree (Beside (Twin C plan plan')) (scanMembership plan f list mode sink)
      (scanMembership plan' f list mode' sink') := by
  have method : (Call.scanMembership f list mode').method =
      (Call.scanMembership f list mode).method := rfl
  have read : Agree (Twin C plan plan')
      (call plan (.scanMembership f list mode) (Database.query fun t => .ok (t.memberRows f list)))
      (call plan' (.scanMembership f list mode')
        (Database.query fun t => .ok (t.memberRows f list))) :=
    agree_call method (Database.agree_query fun _ _ => rfl)
  -- The two modes agree on rows of ranges only, and nothing else can have been read.
  refine Agree.bind_of
    (Q := fun rows => ∃ ranges : List (Range f), rows = ranges.map Range.toRow ∧
      ∀ r ∈ ranges, r.first ≤ r.last) (Agree.onSecond read) ?_ ?_
  · rintro ⟨w, s⟩ ⟨w', s'⟩ ⟨-, twin⟩ rows u ran
    have reached := twin.db.reached
    have sound := reached.sound.1
    have backed := reached.backed.1
    refine ⟨s.db.tables.memberRanges f list, ?_, backed.memberRanges_ordered sound⟩
    obtain ⟨ok, -⟩ := Prod.mk.inj ran
    have rowsRead := call_query_eq_ok (Prod.ext ok rfl)
    rw [← backed.memberRows_eq sound]
    exact (Except.ok.inj rowsRead).symm
  · rintro _ ⟨ranges, rfl, ordered⟩
    rw [scanRows_toRow mode ordered, scanRows_toRow mode' ordered]
    exact (Agree.each agree ranges).bind fun _ => Agree.pure _

end Session

/-! ## Cover writers -/

namespace CoverWriter

variable {f : Family} {σ σ' ε : Type} {R : σ → σ' → Prop} {sink : Block f → Fallible σ ε Unit}
  {sink' : Block f → Fallible σ' ε Unit}

theorem agree_count (g : CoverCounts → CoverCounts) :
    Agree (Beside R) (count (f := f) (ε := ε) g) (count g) := by
  refine Agree.modify ?_
  rintro ⟨w, s⟩ ⟨_, s'⟩ ⟨rfl, related⟩
  exact ⟨rfl, related⟩

theorem agree_writeClosed (agree : ∀ b, Agree R (sink b) (sink' b)) :
    ∀ closed, Agree (Beside R) (writeClosed sink closed) (writeClosed sink' closed)
  | none => Agree.pure ()
  | some _ => (agree_count _).bind fun _ => Agree.each
      (fun b => (Agree.onSecond (agree b)).bind fun _ => agree_count _) _

theorem agree_push (agree : ∀ b, Agree R (sink b) (sink' b)) (r : Range f) :
    Agree (Beside R) (push sink r) (push sink' r) := by
  refine Agree.get_bind ?_
  rintro ⟨w, s⟩ ⟨_, s'⟩ ⟨rfl, -⟩
  refine Agree.bind (Agree.modify ?_) fun _ => agree_writeClosed agree (w.coalescer.push r).2
  rintro ⟨w, s⟩ ⟨_, s'⟩ ⟨rfl, related⟩
  exact ⟨rfl, related⟩

theorem agree_finish (agree : ∀ b, Agree R (sink b) (sink' b)) :
    Agree (Beside R) (finish sink) (finish sink') := by
  refine Agree.get_bind ?_
  rintro ⟨w, s⟩ ⟨_, s'⟩ ⟨rfl, -⟩
  refine Agree.bind (Agree.modify ?_) fun _ =>
    (agree_writeClosed agree w.coalescer.finish.2).bind fun _ => Agree.get_bind ?_
  · rintro ⟨w, s⟩ ⟨_, s'⟩ ⟨rfl, related⟩
    exact ⟨rfl, related⟩
  · rintro ⟨w, s⟩ ⟨_, s'⟩ ⟨rfl, -⟩
    exact Agree.pure _

end CoverWriter

/-! ## Rebuilds -/

namespace Rebuild

open Session (Twin)

variable {C : Coverage → Coverage → Prop} {plan plan' : FaultPlan} {s s' : Session}
  (mode mode' : FetchMode)

theorem agree_buildFamily (f : Family) (list : RowId) (p : Predicate) :
    Agree (Twin C plan plan') (buildFamily plan mode f list p)
      (buildFamily plan' mode' f list p) := by
  have sink : ∀ b : Block f, Agree (Twin C plan plan') (Session.insertUnionBlock plan list b)
      (Session.insertUnionBlock plan' list b) := fun b => Session.agree_insertUnionBlock list b
  refine (Session.agree_populateMembership list p).bind fun _ => ?_
  refine Agree.bind (Agree.withFirst ?_) fun _ => Agree.pure _
  exact (Session.agree_scanMembership list mode mode' (CoverWriter.agree_push sink)).bind
    fun _ => CoverWriter.agree_finish sink

theorem agree_buildAndCommit (name : String) (p : Predicate) :
    Agree (Twin C plan plan') (buildAndCommit plan mode name p)
      (buildAndCommit plan' mode' name p) := by
  refine Agree.bind ?_ fun _ => Session.agree_commit.bind fun _ => Agree.pure _
  refine (Session.agree_ensureList name).bind fun list => ?_
  refine (Session.agree_clearList list).bind fun _ => ?_
  refine (Session.agree_clearList list).bind fun _ => ?_
  exact (agree_buildFamily mode mode' .v4 list p).bind fun _ =>
    (agree_buildFamily mode mode' .v6 list p).bind fun _ => Agree.pure _

theorem giveUp_twin (label : String) (e : Error) (twin : Twin C plan plan' s s') :
    Twin C plan plan' (giveUp plan label e s) (giveUp plan' label e s') := by
  have noted := twin.noted ⟨.error, s!"{label}rebuild failed, rolling back: {e.text}"⟩
    ⟨.error, s!"{label}rebuild failed, rolling back: {e.text}"⟩
  unfold giveUp
  dsimp only
  rcases Session.agree_rollback.run_cases noted with
    ⟨_, t, t', ran, ran', after⟩ | ⟨e, t, t', ran, ran', after⟩
  · rw [ran, ran']
    exact after
  · rw [ran, ran']
    exact after.noted _ _

/-- One list on twins. -/
theorem list_twin (name : String) (p : Predicate) (twin : Twin C plan plan' s s') :
    (list plan mode name p s).1 = (list plan' mode' name p s').1 ∧
      Twin C plan plan' (list plan mode name p s).2 (list plan' mode' name p s').2 := by
  have noted := (twin.noted ⟨.info, s!"  building {name}"⟩ ⟨.info, s!"  building {name}"⟩).noted
    ⟨.debug, s!"  {name}: {p.text}"⟩ ⟨.debug, s!"  {name}: {p.text}"⟩
  unfold list
  dsimp only
  rcases Session.agree_begin.run_cases noted with
    ⟨_, t, t', ran, ran', begun⟩ | ⟨e, t, t', ran, ran', begun⟩
  · rw [ran, ran']
    dsimp only
    rcases (agree_buildAndCommit mode mode' name p).run_cases begun with
      ⟨stats, u, u', built, built', after⟩ | ⟨e, u, u', built, built', after⟩
    · rw [built, built']
      exact ⟨rfl, after.noted _ _⟩
    · rw [built, built']
      exact ⟨rfl, giveUp_twin _ e after⟩
  · rw [ran, ran']
    exact ⟨rfl, begun.noted _ _⟩

theorem definition_twin (defs : List Definition) (d : Definition)
    (twin : Twin C plan plan' s s') :
    (definition plan mode defs d s).1 = (definition plan' mode' defs d s').1 ∧
      Twin C plan plan' (definition plan mode defs d s).2
        (definition plan' mode' defs d s').2 := by
  unfold definition
  obtain ⟨compiled, notes⟩ := Definition.compile defs d.name
  have noted := twin.notedAll (notes.map (·.line))
  cases compiled with
  | some p => exact list_twin mode mode' d.name p noted
  | none => exact ⟨rfl, noted.noted _ _⟩

theorem definitions_twin (defs ds : List Definition) (twin : Twin C plan plan' s s') :
    (definitions plan mode defs ds s).1 = (definitions plan' mode' defs ds s').1 ∧
      Twin C plan plan' (definitions plan mode defs ds s).2
        (definitions plan' mode' defs ds s').2 := by
  induction ds generalizing s s' with
  | nil => exact ⟨rfl, twin⟩
  | cons d rest ih =>
    obtain ⟨same, after⟩ := definition_twin mode mode' defs d twin
    obtain ⟨later, last⟩ := ih after
    refine ⟨?_, last⟩
    rw [definitions, definitions]
    dsimp only
    rw [same, later]

/-- **A pass over all lists** reports the same of twins and leaves twins. -/
theorem all_twin (defs : List Definition) (twin : Twin C plan plan' s s') :
    (all plan mode defs s).1 = (all plan' mode' defs s').1 ∧
      Twin C plan plan' (all plan mode defs s).2 (all plan' mode' defs s').2 := by
  have start := (twin.notedAll ((resolve defs).notes.map (·.line))).noted
    ⟨.info, s!"rebuilding {(resolve defs).order.length} lists"⟩
    ⟨.info, s!"rebuilding {(resolve defs).order.length} lists"⟩
  obtain ⟨same, after⟩ := definitions_twin mode mode' defs (resolve defs).order start
  refine ⟨?_, after.noted _ _⟩
  exact congrArg (fun lists => (⟨lists, (resolve defs).unresolved⟩ : Report)) same

end Rebuild

end NetRegistry
