/-
# Proofs.Service.Export -- what an export writes can be read back

Everything exported is ASCII, so a writer with a limit takes the first `n`
characters of what it is given in all, however it is given.  `Prints db x text r`
says so of a step `x` on a given database: it writes `text` and ends with `r`, an
answer or an error, or fails when the text does not fit, and in every case the writer
has the text as far as it fits.  The rules for one step after the other (`Prints.bind`,
`Prints.stop`) put texts behind one another up to the first step that fails.

* `Export.prints_list`: an export writes a line for each block of the union, IPv4
  before IPv6, up to the first row that cannot be read (`Export.Readout`).
* `Export.readout_eq`, `Export.exists_unions`: nothing stops it exactly when both
  unions can be read.
* `Export.splitOn_text`: newlines divide the text into those lines.

**Main theorem** `export_reads_back`.
-/
import Mathlib.Data.List.Forall2
import NetRegistry.Proofs.Address.Text
import NetRegistry.Proofs.Service.Containment

namespace NetRegistry

set_option autoImplicit false

/-! ## Writers -/

/-- Every character takes one byte. -/
def Ascii (s : String) : Prop := ∀ c ∈ s.toList, c.utf8Size = 1

theorem ascii_empty : Ascii "" := fun c member => by simp at member

theorem Ascii.append {s t : String} (hs : Ascii s) (ht : Ascii t) : Ascii (s ++ t) := by
  intro c member
  rw [String.toList_append, List.mem_append] at member
  exact member.elim (hs c) (ht c)

theorem utf8ByteSize_ofList {cs : List Char} (ascii : ∀ c ∈ cs, c.utf8Size = 1) :
    (String.ofList cs).utf8ByteSize = cs.length := by
  induction cs with
  | nil => rfl
  | cons c cs ih =>
    rw [String.ofList_cons, String.utf8ByteSize_append, String.utf8ByteSize_singleton,
      ascii c List.mem_cons_self, ih fun d member => ascii d (List.mem_cons_of_mem c member),
      List.length_cons, Nat.add_comm]

theorem Ascii.utf8ByteSize {s : String} (ascii : Ascii s) : s.utf8ByteSize = s.toList.length := by
  rw [← utf8ByteSize_ofList ascii, String.ofList_toList]

namespace LimitedWriter

/-- The writer takes the text and what it has already taken. -/
def Accepts (w : LimitedWriter) (text : String) : Prop :=
  ∀ n ∈ w.limit, (w.written ++ text).utf8ByteSize ≤ n

instance (w : LimitedWriter) (text : String) : Decidable (w.Accepts text) :=
  inferInstanceAs (Decidable (∀ n ∈ w.limit, (w.written ++ text).utf8ByteSize ≤ n))

/-- The writer after a text, or as much of it as fits. -/
def after (w : LimitedWriter) (text : String) : LimitedWriter :=
  { w with written :=
      match w.limit with
      | none => w.written ++ text
      | some n => String.ofList ((w.written ++ text).toList.take n) }

/-- A writer that has kept to its limit. -/
structure Within (w : LimitedWriter) : Prop where
  ascii : Ascii w.written
  fits : ∀ n ∈ w.limit, w.written.utf8ByteSize ≤ n

variable {w : LimitedWriter} {text more : String}

theorem fitting_eq_take {cs : List Char} (ascii : ∀ c ∈ cs, c.utf8Size = 1) (room : Nat) :
    fitting room cs = cs.take room := by
  induction cs generalizing room with
  | nil => simp [fitting]
  | cons c cs ih =>
    have later := ih fun d member => ascii d (List.mem_cons_of_mem c member)
    cases room with
    | zero => simp [fitting, ascii c List.mem_cons_self]
    | succ room => simp [fitting, ascii c List.mem_cons_self, later]

theorem Within.append (within : w.Within) (ascii : Ascii text) : Ascii (w.written ++ text) :=
  within.ascii.append ascii

theorem after_of_accepts (within : w.Within) (ascii : Ascii text) (accepts : w.Accepts text) :
    w.after text = { w with written := w.written ++ text } := by
  obtain ⟨limit, written⟩ := w
  cases limit with
  | none => rfl
  | some n =>
    have short := accepts n rfl
    rw [(within.append ascii).utf8ByteSize] at short
    simp only [after, List.take_of_length_le short, String.ofList_toList]

theorem within_after (within : w.Within) (ascii : Ascii text) (accepts : w.Accepts text) :
    (w.after text).Within := by
  rw [after_of_accepts within ascii accepts]
  exact ⟨within.append ascii, accepts⟩

theorem accepts_append (accepts : w.Accepts (text ++ more)) : w.Accepts text := by
  intro n limited
  have fits := accepts n limited
  rw [← String.append_assoc, String.utf8ByteSize_append] at fits
  omega

theorem accepts_after_iff (within : w.Within) (ascii : Ascii text) (accepts : w.Accepts text) :
    (w.after text).Accepts more ↔ w.Accepts (text ++ more) := by
  rw [after_of_accepts within ascii accepts, Accepts, Accepts, String.append_assoc]

theorem after_after (within : w.Within) (ascii : Ascii text) (accepts : w.Accepts text) :
    (w.after text).after more = w.after (text ++ more) := by
  rw [after_of_accepts within ascii accepts]
  simp only [after, String.append_assoc]

/-- What follows a text that was cut off does not count. -/
theorem after_cut (within : w.Within) (ascii : Ascii text) (cut : ¬ w.Accepts text) :
    w.after (text ++ more) = w.after text := by
  obtain ⟨limit, written⟩ := w
  cases limit with
  | none => exact absurd (fun n limited => by cases limited) cut
  | some n =>
    have long : n ≤ (written ++ text).toList.length := by
      rw [← (within.append ascii).utf8ByteSize]
      exact Nat.le_of_not_le fun short => cut fun m same => Option.some.inj same ▸ short
    simp only [after, ← String.append_assoc, String.toList_append (s := written ++ text),
      List.take_append_of_le_length long]

theorem run_write (within : w.Within) (ascii : Ascii text) :
    (write text).run w =
      (if w.Accepts text then .ok () else .error (.file .writerFull), w.after text) := by
  obtain ⟨limit, written⟩ := w
  cases limit with
  | none => exact congrArg (·, _) (if_pos fun n limited => by cases limited).symm
  | some n =>
    have fits : written.utf8ByteSize ≤ n := within.fits n rfl
    have length := within.ascii.utf8ByteSize
    dsimp only at length
    have room : Accepts ⟨some n, written⟩ text ↔ text.utf8ByteSize ≤ n - written.utf8ByteSize := by
      rw [Accepts]
      simp only [Option.mem_some_iff, forall_eq', String.utf8ByteSize_append]
      omega
    by_cases accepts : Accepts ⟨some n, written⟩ text
    · rw [after_of_accepts within ascii accepts, if_pos accepts]
      show write text _ = _
      simp only [write, LimitedWriter.room, Option.map_some, if_pos (room.mp accepts)]
    · rw [if_neg accepts]
      show write text _ = _
      simp only [write, LimitedWriter.room, Option.map_some, if_neg (mt room.mpr accepts), after,
        fitting_eq_take ascii]
      have whole : written.toList.take n = written.toList := List.take_of_length_le (length ▸ fits)
      rw [String.toList_append, List.take_append, whole, ← length, String.ofList_append,
        String.ofList_toList]

end LimitedWriter

/-! ## Steps that write -/

/-- On a given database the step writes the text and ends as told, or fails when the text does not
fit.  It leaves the database alone. -/
structure Prints {α : Type} (db : Database) (x : Fallible (LimitedWriter × Session) Error α)
    (text : String) (ending : Except Error α) : Prop where
  ascii : Ascii text
  run : ∀ (w : LimitedWriter) (s : Session), w.Within → s.db = db → ∃ u : Session, u.db = db ∧
    x.run (w, s) = (if w.Accepts text then ending else .error (.file .writerFull), (w.after text, u))

namespace Prints

variable {α β τ : Type} {db : Database} {text more : String} {a : α} {e : Error}
  {first : Except Error α} {ending : Except Error β}
  {x : Fallible (LimitedWriter × Session) Error α}
  {f : α → Fallible (LimitedWriter × Session) Error β}

theorem nothing {x : Fallible Session Error α}
    (reads : ∀ s : Session, s.db = db → ∃ u : Session, u.db = db ∧ x.run s = (first, u)) :
    Prints db (Fallible.onSecond x) "" first := by
  refine ⟨ascii_empty, fun w s within on => ?_⟩
  obtain ⟨u, kept, run⟩ := reads s on
  have accepts : w.Accepts "" := fun n limited => by
    rw [String.append_empty]
    exact within.fits n limited
  refine ⟨u, kept, ?_⟩
  rw [Fallible.run_onSecond, run, if_pos accepts,
    LimitedWriter.after_of_accepts within ascii_empty accepts, String.append_empty]

theorem ofExcept (r : Except Error α) : Prints db (Fallible.ofExcept r) "" r :=
  nothing fun s on => ⟨s, on, rfl⟩

theorem pure (a : α) : Prints db (Pure.pure a) "" (.ok a) := ofExcept (.ok a)

/-- One step after the other writes one text behind the other. -/
theorem bind (first : Prints db x text (.ok a)) (next : Prints db (f a) more ending) :
    Prints db (x >>= f) (text ++ more) ending := by
  refine ⟨first.ascii.append next.ascii, fun w s within on => ?_⟩
  obtain ⟨u, kept, run⟩ := first.run w s within on
  rw [Fallible.run_bind, run]
  by_cases accepts : w.Accepts text
  · have within' := LimitedWriter.within_after within first.ascii accepts
    obtain ⟨v, kept', run'⟩ := next.run (w.after text) u within' kept
    refine ⟨v, kept', ?_⟩
    simp only [if_pos accepts, run', LimitedWriter.after_after within first.ascii accepts,
      LimitedWriter.accepts_after_iff within first.ascii accepts]
  · have cut : ¬ w.Accepts (text ++ more) := mt LimitedWriter.accepts_append accepts
    refine ⟨u, kept, ?_⟩
    simp only [if_neg accepts, if_neg cut, LimitedWriter.after_cut within first.ascii accepts]

/-- Nothing is written after a step that failed. -/
theorem stop (first : Prints db x text (.error e)) : Prints db (x >>= f) text (.error e) := by
  refine ⟨first.ascii, fun w s within on => ?_⟩
  obtain ⟨u, kept, run⟩ := first.run w s within on
  refine ⟨u, kept, ?_⟩
  rw [Fallible.run_bind, run]
  by_cases accepts : w.Accepts text
  · simp only [if_pos accepts]
  · simp only [if_neg accepts]

theorem map (prints : Prints db x text first) (g : α → β) :
    Prints db (do let a ← x; return g a) text (first.map g) := by
  cases first with
  | error e => exact prints.stop
  | ok a =>
    have done := prints.bind (f := fun a => Pure.pure (g a)) (.pure (g a))
    rwa [String.append_empty] at done

end Prints

/-! ## Exports -/

namespace Export

variable {f : Family} {db : Database} {t : Tables} {id : RowId}

/-- What is read of rows one after the other: the blocks before the first row that holds none, and why
it holds none. -/
structure Readout where
  nets : List Net
  stop : Option StorageError

namespace Readout

/-- The number of blocks, or why there are not more. -/
def ending (r : Readout) : Except Error Nat :=
  match r.stop with
  | none => .ok r.nets.length
  | some e => .error (.storage e)

/-- Go on with more rows unless one could not be read. -/
def andThen (r later : Readout) : Readout :=
  match r.stop with
  | none => ⟨r.nets ++ later.nets, later.stop⟩
  | some _ => r

/-- What is read of the rows of a union. -/
def ofRows (f : Family) : List BlockRow → Readout
  | [] => ⟨[], none⟩
  | row :: rest =>
      match Read.block f row with
      | .error e => ⟨[], some e⟩
      | .ok b => ⟨⟨f, b⟩ :: (ofRows f rest).nets, (ofRows f rest).stop⟩

/-- What is read of the union of a list, in the order in which it is written. -/
def ofList (t : Tables) (id : RowId) : Readout :=
  (ofRows .v4 (t.unionRows .v4 id)).andThen (ofRows .v6 (t.unionRows .v6 id))

theorem ofRows_eq {rows : List BlockRow} {blocks : List (Block f)}
    (read : rows.mapM (Read.block f) = .ok blocks) :
    ofRows f rows = ⟨blocks.map (⟨f, ·⟩), none⟩ := by
  induction rows generalizing blocks with
  | nil =>
    obtain rfl := Except.ok.inj read
    rfl
  | cons row rest ih =>
    obtain ⟨b, later, first, others, rfl⟩ := mapM_cons_eq_ok_iff.mp read
    simp only [ofRows, first, ih others, List.map_cons]

end Readout

/-- The unions of both families in the order in which they are written. -/
def nets (unions : (f : Family) → List (Block f)) : List Net :=
  (unions .v4).map (⟨.v4, ·⟩) ++ (unions .v6).map (⟨.v6, ·⟩)

/-- Unions of which every row can be read are read whole. -/
theorem readout_eq {unions : (f : Family) → List (Block f)}
    (read : ∀ f, t.unionOf f id = .ok (unions f)) :
    Readout.ofList t id = ⟨nets unions, none⟩ := by
  rw [Readout.ofList, Readout.ofRows_eq (read .v4), Readout.ofRows_eq (read .v6)]
  rfl

theorem Readout.exists_blocks {rows : List BlockRow} (whole : (ofRows f rows).stop = none) :
    ∃ blocks, rows.mapM (Read.block f) = .ok blocks := by
  induction rows with
  | nil => exact ⟨[], rfl⟩
  | cons row rest ih =>
    rw [ofRows] at whole
    cases first : Read.block f row with
    | error e => rw [first] at whole; cases whole
    | ok b =>
      rw [first] at whole
      obtain ⟨later, others⟩ := ih whole
      exact ⟨b :: later, mapM_cons_eq_ok_iff.mpr ⟨b, later, first, others, rfl⟩⟩

/-- Nothing stops the reading only if both unions can be read. -/
theorem exists_unions (whole : (Readout.ofList t id).stop = none) :
    ∃ unions : (f : Family) → List (Block f), ∀ f, t.unionOf f id = .ok (unions f) := by
  rw [Readout.ofList, Readout.andThen] at whole
  have v4 : (Readout.ofRows .v4 (t.unionRows .v4 id)).stop = none := by
    split at whole
    · assumption
    · exact whole
  rw [v4] at whole
  have each (f : Family) : ∃ blocks, t.unionOf f id = .ok blocks := by
    cases f with
    | v4 => exact Readout.exists_blocks v4
    | v6 => exact Readout.exists_blocks whole
  choose unions read using each
  exact ⟨unions, read⟩

/-- The text of an export: a line for each block. -/
def text (ns : List Net) : String := String.join (ns.map fun n => n.text ++ "\n")

theorem text_append (ns ms : List Net) : text (ns ++ ms) = text ns ++ text ms := by
  rw [text, text, text, List.map_append, ← String.toList_inj]
  simp only [String.toList_join, String.toList_append, List.flatMap_append]

theorem text_cons (b : Block f) (ns : List Net) : text (⟨f, b⟩ :: ns) = line b ++ text ns := by
  rw [text, List.map_cons, String.join_cons]
  rfl

theorem ascii_line (b : Block f) : Ascii (line b) := by
  intro c member
  have ascii : c.toNat ≤ 127 := by
    rw [line, String.toList_append, List.mem_append, Block.text, String.toList_ofList] at member
    rcases member with shown | newline
    · exact Nat.le_of_lt_succ (printed_chars shown).bounds.2
    · rw [List.mem_singleton.mp newline]
      decide
  exact Char.utf8Size_eq_one_iff.mpr ascii

/-- Write the line of a block. -/
def writeLine (b : Block f) : Fallible (LimitedWriter × Session) Error Unit := fun (w, s) =>
  let (r, w) := (LimitedWriter.write (line b)).run w
  (r, (w, s))

theorem prints_line (b : Block f) : Prints db (writeLine b) (line b) (.ok ()) := by
  refine ⟨ascii_line b, fun w s within on => ⟨s, on, ?_⟩⟩
  have run := LimitedWriter.run_write within (ascii_line b)
  show writeLine b (w, s) = _
  rw [writeLine, run]

/-- Rows are written as far as they can be read. -/
theorem prints_rows (rows : List BlockRow) :
    Prints db (Session.feedBlocks f writeLine rows) (text (Readout.ofRows f rows).nets)
      (Readout.ofRows f rows).ending := by
  induction rows with
  | nil => exact .pure 0
  | cons row rest ih =>
    rw [Session.feedBlocks, Readout.ofRows]
    cases Read.block f row with
    | error e => exact (Prints.ofExcept (.error (.storage e))).stop
    | ok b =>
      have count : (⟨⟨f, b⟩ :: (Readout.ofRows f rest).nets, (Readout.ofRows f rest).stop⟩ :
          Readout).ending = (Readout.ofRows f rest).ending.map (· + 1) := by
        rw [Readout.ending, Readout.ending]
        cases (Readout.ofRows f rest).stop <;> rfl
      rw [count, text_cons, ← String.empty_append (s := line b ++ _)]
      exact (Prints.ofExcept (.ok b)).bind ((prints_line b).bind (ih.map (· + 1)))

theorem prints_union (f : Family) (id : RowId) :
    Prints db (union f id) (text (Readout.ofRows f (db.tables.unionRows f id)).nets)
      (Readout.ofRows f (db.tables.unionRows f id)).ending := by
  have read : ∀ s : Session, s.db = db → ∃ u : Session, u.db = db ∧
      (Session.query fun t => .ok (t.unionRows f id)).run s =
        (.ok (db.tables.unionRows f id), u) := by
    rintro s rfl
    exact ⟨s, rfl, rfl⟩
  have both := (Prints.nothing read).bind (prints_rows (f := f) (db.tables.unionRows f id))
  rw [String.empty_append] at both
  exact both

/-- Looking up the id of a list reads and does nothing else. -/
theorem run_listId (name : String) (s : Session) :
    (listId name).run s =
      (match s.db.tables.listNamed? name with
      | some id => .ok id
      | none => .error (.unknownList name), s) := by
  have query : (Session.query fun t => .ok (t.listNamed? name)).run s =
      (.ok (s.db.tables.listNamed? name), s) := rfl
  rw [listId, Fallible.run_bind, query]
  cases s.db.tables.listNamed? name <;> rfl

theorem prints_list_unknown {name : String} (unknown : db.tables.listNamed? name = none) :
    Prints db (list name) "" (.error (.unknownList name)) := by
  refine (Prints.nothing fun s on => ⟨s, on, ?_⟩).stop
  rw [run_listId, on, unknown]

/-- The union of a list is written as far as it can be read. -/
theorem prints_list {name : String} (named : db.tables.listNamed? name = some id) :
    Prints db (list name) (text (Readout.ofList db.tables id).nets)
      (Readout.ofList db.tables id).ending := by
  have found : Prints db (Fallible.onSecond (listId name)) "" (.ok id) :=
    .nothing fun s on => ⟨s, on, by rw [run_listId, on, named]⟩
  have noted (line : LogLine) : Prints db (Fallible.onSecond (Session.note line)) "" (.ok ()) :=
    .nothing fun s on => ⟨s.noted line, on, rfl⟩
  rw [← String.empty_append (s := text _)]
  refine found.bind ?_
  have v4 : Prints db (union .v4 id) _ _ := prints_union .v4 id
  have v6 : Prints db (union .v6 id) _ _ := prints_union .v6 id
  rw [Readout.ofList]
  generalize Readout.ofRows .v4 (db.tables.unionRows .v4 id) = r4 at v4 ⊢
  generalize Readout.ofRows .v6 (db.tables.unionRows .v6 id) = r6 at v6 ⊢
  obtain ⟨nets4, _ | e⟩ := r4
  · obtain ⟨nets6, _ | e⟩ := r6
    · have whole : Prints db (do
            let v4 ← union .v4 id
            let v6 ← union .v6 id
            Fallible.onSecond (Session.note ⟨.debug, s!"exported {name}: {v4} v4, {v6} v6 blocks"⟩)
            return v4 + v6)
          (text nets4 ++ (text nets6 ++ ("" ++ ""))) (.ok (nets4.length + nets6.length)) :=
        v4.bind (v6.bind ((noted _).bind (.pure _)))
      rw [String.append_empty, String.append_empty, ← text_append, ← List.length_append] at whole
      exact whole
    · rw [Readout.andThen, text_append]
      exact v4.bind v6.stop
  · exact v4.stop

theorem prints_list_read {name : String} {unions : (f : Family) → List (Block f)}
    (named : db.tables.listNamed? name = some id)
    (read : ∀ f, db.tables.unionOf f id = .ok (unions f)) :
    Prints db (list name) (text (nets unions)) (.ok (nets unions).length) := by
  have prints := prints_list named
  rwa [readout_eq read] at prints

theorem prints_list_stopped {name : String} {e : StorageError}
    (named : db.tables.listNamed? name = some id)
    (stop : (Readout.ofList db.tables id).stop = some e) :
    Prints db (list name) (text (Readout.ofList db.tables id).nets) (.error (.storage e)) := by
  have prints := prints_list named
  rwa [Readout.ending, stop] at prints

/-- Newlines divide the text into its lines and leave nothing behind the last. -/
theorem splitOn_text (ns : List Net) :
    (text ns).toList.splitOn '\n' = ns.map (·.text.toList) ++ [[]] := by
  rw [text, String.toList_join]
  induction ns with
  | nil => rfl
  | cons n rest ih =>
    have inside : ∀ c ∈ n.text.toList, (c == '\n') = false := by
      intro c member
      rw [Net.text, Block.text, String.toList_ofList] at member
      refine beq_false_of_ne ?_
      rintro rfl
      exact absurd (printed_chars member).bounds.1 (by decide)
    have line : (n.text ++ "\n").toList = n.text.toList ++ '\n' :: [] := String.toList_append
    rw [List.map_cons, List.flatMap_cons, line, List.append_assoc, List.cons_append,
      List.nil_append, List.splitOn, List.splitOnP_append_cons_of_forall_mem inside _ rfl,
      List.map_cons, List.cons_append]
    exact congrArg _ ih

/-- The line is the network, and is accepted as a block by its family alone. -/
structure ReadsBack (line : String) (n : Net) : Prop where
  own : Block.parse? n.family line = some n.block
  other : ∀ g, g ≠ n.family → Block.parse? g line = none

theorem forall₂_readsBack {ns : List Net} (valid : ∀ n ∈ ns, n.block.Valid) :
    List.Forall₂ ReadsBack (ns.map (·.text)) ns := by
  induction ns with
  | nil => exact .nil
  | cons n rest ih =>
    have first := valid n List.mem_cons_self
    refine .cons ⟨Block.parse?_text first, fun g other => Block.parse?_text_other first other⟩ ?_
    exact ih fun m member => valid m (List.mem_cons_of_mem n member)

/-- What the text of an export is to the union of the list in both families. -/
structure Describes (t : Tables) (id : RowId) (unions : (f : Family) → List (Block f))
    (text : String) (lines : List String) : Prop where
  /-- Every line ends in a newline. -/
  ended : text.toList.splitOn '\n' = lines.map (·.toList) ++ [[]]
  readBack : List.Forall₂ ReadsBack lines (nets unions)
  /-- The blocks are what is read of the union, -/
  read : ∀ f, t.unionOf f id = .ok (unions f)
  /-- and their rows are those that are stored. -/
  stored : ∀ f, ((unions f).map Block.toRow).Perm
    (((t.unions.get f).filter (·.list == id)).map (·.block))
  /-- The blocks ascend and no two overlap. -/
  ascending : ∀ f, (unions f).Pairwise fun b c => b.last < c.base

/-- What becomes of an export of a text into a writer with a limit, or with none. -/
structure Delivers (name text : String) (count : Nat) (limit : Option Nat) (s : Session) :
    Prop where
  /-- It fails exactly when the text is longer than the limit. -/
  result : ((list name).run (.empty limit, s)).1 =
    if ∀ n ∈ limit, text.utf8ByteSize ≤ n then .ok count else .error (.file .writerFull)
  /-- What has been written is a first part of the text, -/
  start : ∃ rest, ((list name).run (.empty limit, s)).2.1.written ++ rest = text
  /-- all of it if it fits, -/
  whole : (∀ n ∈ limit, text.utf8ByteSize ≤ n) →
    ((list name).run (.empty limit, s)).2.1.written = text
  /-- and else as much as the writer takes. -/
  full : ∀ n ∈ limit, n < text.utf8ByteSize →
    ((list name).run (.empty limit, s)).2.1.written.utf8ByteSize = n
  kept : ((list name).run (.empty limit, s)).2.2.db = s.db

theorem delivers {name text : String} {count : Nat} {s : Session}
    (prints : Prints s.db (list name) text (.ok count)) (limit : Option Nat) :
    Delivers name text count limit s := by
  have within : (LimitedWriter.empty limit).Within := ⟨ascii_empty, fun n _ => Nat.zero_le n⟩
  have accepts : (LimitedWriter.empty limit).Accepts text ↔ ∀ n ∈ limit, text.utf8ByteSize ≤ n := by
    rw [LimitedWriter.Accepts, LimitedWriter.empty, String.empty_append]
  obtain ⟨u, kept, run⟩ := prints.run (.empty limit) s within rfl
  refine ⟨?_, ?_, ?_, ?_, ?_⟩
  · simp only [run, accepts]
  · rw [run]
    cases limit with
    | none => exact ⟨"", by simp [LimitedWriter.after, LimitedWriter.empty]⟩
    | some n =>
      refine ⟨String.ofList (text.toList.drop n), ?_⟩
      simp [LimitedWriter.after, LimitedWriter.empty, ← String.ofList_append]
  · intro fits
    rw [run, LimitedWriter.after_of_accepts within prints.ascii (accepts.mpr fits)]
    exact String.empty_append
  · rintro n rfl long
    rw [prints.ascii.utf8ByteSize] at long
    have taken : ∀ c ∈ text.toList.take n, c.utf8Size = 1 := fun c member =>
      prints.ascii c (List.mem_of_mem_take member)
    rw [run]
    simp only [LimitedWriter.after, LimitedWriter.empty, String.empty_append,
      utf8ByteSize_ofList taken, List.length_take, Nat.min_eq_left (Nat.le_of_lt long)]
  · rw [run, kept]

end Export

namespace Service

/-- **Exports read back**, after every history of imports and rebuilds: there is one text for each
list, whose lines are the blocks of its union, and a writer gets it as far as its limit goes. -/
theorem export_reads_back {history : List Event} (routine : ∀ e ∈ history, e.Routine) :
    ∀ row ∈ (empty.after history).db.tables.lists, ∃ unions text lines,
      Export.Describes (empty.after history).db.tables row.id unions text lines ∧
      ∀ s : Session, s.db = (empty.after history).db → ∀ limit,
        Export.Delivers row.name text lines.length limit s := by
  intro row listed
  have sound := (reachable_after fun e member => (routine e member).visible).database.sound.1
  have found := find?_key sound.listNames listed
  have cover := (shelved_after routine).1 row.name row found
  generalize (empty.after history).db = db at listed found cover
  choose unions read cover using cover
  have valid : ∀ n ∈ Export.nets unions, n.block.Valid := by
    intro n member
    rcases List.mem_append.mp member with v4 | v6
    · obtain ⟨b, there, rfl⟩ := List.mem_map.mp v4
      exact (cover .v4).valid b there
    · obtain ⟨b, there, rfl⟩ := List.mem_map.mp v6
      exact (cover .v6).valid b there
  refine ⟨unions, Export.text (Export.nets unions), (Export.nets unions).map (·.text),
    ⟨?_, ?_, read, ?_, ?_⟩, ?_⟩
  · rw [Export.splitOn_text, List.map_map]
    rfl
  · exact Export.forall₂_readsBack valid
  · intro f
    rw [← (mapM_block_eq_ok_iff.mp (read f)).1]
    exact List.mergeSort_perm _ _
  · exact fun f => (cover f).ascending
  · rintro s rfl limit
    rw [List.length_map]
    exact Export.delivers (Export.prints_list_read (listNamed?_of_find? found) read) limit

theorem export_reads_back_listed :
    (∀ e ∈ listed, e.Routine) ∧ ∃ row ∈ (empty.after listed).db.tables.lists, row.name = "all" ∧
      ∃ unions text lines,
        Export.Describes (empty.after listed).db.tables row.id unions text lines ∧
        ∀ s : Session, s.db = (empty.after listed).db → ∀ limit,
          Export.Delivers row.name text lines.length limit s := by
  have routine : ∀ e ∈ listed, e.Routine :=
    List.forall_mem_cons.mpr ⟨⟨rfl, fun _ => rfl⟩, dropped_routine⟩
  have sound := (reachable_after fun e member =>
    (dropped_routine e member).visible).database.sound.1
  obtain ⟨-, db⟩ := @Rebuild.list_commits (empty.after dropped).db.tables
    (.on (empty.after dropped).db) .stream sound rfl "all" (.and [])
  have after : (empty.after listed).db = _ := db
  have member : ⟨1, "all"⟩ ∈ (empty.after listed).db.tables.lists := by
    rw [after]
    exact List.mem_singleton.mpr rfl
  exact ⟨routine, _, member, rfl, export_reads_back routine _ member⟩

end Service

end NetRegistry
