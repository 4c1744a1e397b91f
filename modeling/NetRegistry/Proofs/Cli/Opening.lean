/-
# Proofs.Cli.Opening -- which files the opening of a database touches

Opening a database makes the directories above its file and then works on five
files: that file, its journal, its log with the index, and its mark.  Whether it
succeeds or not, all other files and all directories are spared (`openDatabase_ends`).
-/
import NetRegistry.Cli.Opening
import NetRegistry.Proofs.Cli.Workspace
import NetRegistry.Proofs.Fallible

namespace NetRegistry.Cli

set_option autoImplicit false

open Text (bytesOf)
open Fallible (Ends Keeps)
open Workspace (Spares)

/-- The files that a database of a name works on. -/
def databaseFiles (home : Place) (name : String) : List Place :=
  match Locator.ofName name with
  | .ok l => if l.isTransient then [] else (Site.mk (.spelled home l.path) l).files
  | .error _ => []

/-! ## Steps -/

namespace Opening

variable {I : Workspace → Prop} {α : Type}

theorem keeps_refuse (e : StorageError) : Keeps I (refuse e : Opening α) := .fail _

theorem keeps_look (p : Place) : Keeps I (look p) := fun _ => id

theorem look_ends {w : Workspace} {p : Place} {done : Option Entry → Workspace → Prop}
    {failed : Workspace → Prop} (holds : done (w.entry? p) w) : Ends (look p) w done failed :=
  holds

/-- What is done with an entry may depend on where it was found. -/
theorem keeps_look_bind {p : Place} {f : Option Entry → Opening α}
    (next : ∀ w, I w → Ends (f (w.entry? p)) w (fun _ => I) I) : Keeps I (look p >>= f) :=
  fun w holds => Ends.bind (look_ends (next w holds))

theorem ends_ite {w : Workspace} {c : Prop} [Decidable c] {x y : Opening α}
    (yes : c → Ends x w (fun _ => I) I) (no : ¬ c → Ends y w (fun _ => I) I) :
    Ends (if c then x else y) w (fun _ => I) I := by
  split
  · exact yes ‹c›
  · exact no ‹¬ c›

end Opening

namespace Site

open Opening

variable {s : Site} {start w : Workspace}

theorem place_mem : s.place ∈ s.files := by simp [files]
theorem journal_mem : s.journal ∈ s.files := by simp [files]
theorem log_mem : s.log ∈ s.files := by simp [files]
theorem index_mem : s.index ∈ s.files := by simp [files]

theorem keeps_remove {p : Place} (member : p ∈ s.files) :
    Keeps (Spares s.files start) (remove p) :=
  .modify fun _ spared => spared.trans (.removeAt member)

theorem put_ends {p : Place} {e : Entry} (spared : Spares s.files start w) (member : p ∈ s.files)
    (file : w.isDirectory p = false) (kept : e.bytes?.isSome) :
    Ends (put p e) w (fun _ => Spares s.files start) (Spares s.files start) :=
  .modify (spared.trans (.put member file kept))

theorem spares_leave (use : LogUse) (w : Workspace) : Spares s.files w (s.leave use w) := by
  unfold leave
  split
  · exact (Spares.removeAt log_mem).trans (.removeAt index_mem)
  · exact .removeAt log_mem
  · exact .refl w

theorem keeps_setMark : Keeps (Spares s.files start) s.setMark := by
  unfold setMark
  split
  · split
    · exact keeps_refuse _
    · refine (keeps_look _).bind fun found => ?_
      split
      · exact keeps_refuse _
      · exact .pure _
  · exact .pure _

theorem keeps_settleJournal (isVacant : Bool) :
    Keeps (Spares s.files start) (s.settleJournal isVacant) := by
  unfold settleJournal
  refine (keeps_look _).bind fun found => ?_
  split
  · exact .pure _
  split
  · exact .pure _
  split
  · split
    · exact keeps_remove journal_mem
    · exact .pure _
  split
  · exact keeps_refuse _
  split
  · exact .pure _
  split
  · exact keeps_refuse _
  · exact keeps_remove journal_mem

/-- A file that is put where no directory is, with something done behind it. -/
theorem put_bind_ends {α : Type} {p : Place} {e : Entry} {f : Unit → Opening α}
    (spared : Spares s.files start w) (member : p ∈ s.files)
    (file : w.isDirectory p = false) (kept : e.bytes?.isSome)
    (next : Keeps (Spares s.files start) (f ())) :
    Ends (put p e >>= f) w (fun _ => Spares s.files start) (Spares s.files start) :=
  next _ (spared.trans (.put member file kept))

theorem keeps_useIndex : Keeps (Spares s.files start) s.useIndex := by
  unfold useIndex
  refine keeps_look_bind fun w spared => ?_
  -- the index is written only where no directory is, so what was found there is kept at hand
  cases found : w.entry? s.index with
  | none =>
    refine ends_ite (fun _ => ?_) fun _ => ?_
    · exact (keeps_refuse (α := Unit) _).bind (fun _ => .pure _) w spared
    · exact put_bind_ends spared index_mem (Workspace.not_directory_of_none found) rfl (.pure _)
  | some e =>
    have file := Workspace.not_directory_of_some found
    cases e with
    | directory => exact spared
    | _ =>
      refine ends_ite (fun _ => spared) fun _ => ?_
      exact put_bind_ends spared index_mem (file nofun) rfl (.pure _)

theorem keeps_useLog : Keeps (Spares s.files start) s.useLog := by
  unfold useLog
  have goesOn : Keeps (Spares s.files start)
      (if s.locator.system == .single && !s.isForReading then pure (.removed false)
        else s.useIndex) := by
    split
    · exact .pure _
    · exact keeps_useIndex
  refine keeps_look_bind fun w spared => ?_
  cases found : w.entry? s.log with
  | none =>
    exact put_bind_ends spared log_mem (Workspace.not_directory_of_none found) rfl goesOn
  | some e =>
    cases e with
    | directory => exact (keeps_refuse (α := Unit) _).bind (fun _ => goesOn) w spared
    | _ => exact goesOn w spared

theorem keeps_findLog (isVacant : Bool) : Keeps (Spares s.files start) (s.findLog isVacant) := by
  unfold findLog
  refine (keeps_look _).bind fun found => ?_
  split
  · exact .pure _
  split
  · exact .pure _
  split
  · split
    · exact keeps_refuse _
    · exact (keeps_remove log_mem).bind fun _ => .pure _
  split
  · exact keeps_useLog
  · exact keeps_refuse _

theorem keeps_settle (isVacant : Bool) : Keeps (Spares s.files start) (s.settle isVacant) := by
  unfold settle
  split
  · exact .pure _
  · exact keeps_setMark.bind fun _ => (keeps_settleJournal _).bind fun _ => keeps_findLog _

theorem keeps_logOf (found : LogUse) : Keeps (Spares s.files start) (s.logOf found) := by
  unfold logOf
  split
  · exact .pure _
  split
  · exact keeps_useLog
  · exact keeps_refuse _

/-! ## The file itself -/

theorem keeps_writeFile {e : Entry} (file : start.isDirectory s.place = false)
    (kept : e.bytes?.isSome) : Keeps (Spares s.files start) (s.writeFile e) := by
  unfold writeFile
  split
  · exact keeps_refuse _
  refine (keeps_look _).bind fun found => ?_
  split
  · exact keeps_refuse _
  · exact keeps_refuse _
  split
  · exact keeps_refuse _
  refine (keeps_look _).bind fun found => ?_
  split
  · exact keeps_refuse _
  exact (keeps_remove journal_mem).bind fun _ w spared =>
    put_ends spared place_mem (spared.not_directory place_mem file) kept

/-- A database has been opened at a place that is no directory. -/
structure Opens (s : Site) (start : Workspace) (o : Opened) (w : Workspace) : Prop where
  site : o.site = some s
  file : start.isDirectory s.place = false
  spared : Spares s.files start w

/-- From what is left of the start, a step opens a database, or fails and spares as much. -/
def Tries (s : Site) (start : Workspace) (x : Opening Opened) : Prop :=
  ∀ w, Spares s.files start w → Ends x w (Opens s start) (Spares s.files start)

namespace Tries

variable {α : Type} {o : Opened}

theorem refuse (e : StorageError) : Tries s start (Opening.refuse e) := fun _ => id

theorem pure (file : start.isDirectory s.place = false) (site : o.site = some s) :
    Tries s start (Pure.pure o) := fun _ spared => ⟨site, file, spared⟩

theorem bind {x : Opening α} {f : α → Opening Opened} (first : Keeps (Spares s.files start) x)
    (next : ∀ a, Tries s start (f a)) : Tries s start (x >>= f) := fun w spared =>
  Ends.bind ((first w spared).imp (fun a t kept => next a t kept) fun _ => id)

end Tries

theorem tries_openBlank (found : LogUse) (file : start.isDirectory s.place = false) :
    Tries s start (s.openBlank found) := by
  unfold openBlank
  refine .bind (keeps_logOf found) fun log => ?_
  dsimp only
  split
  · exact .refuse _
  · exact .pure file rfl

theorem tries_openUnlogged (found : LogUse) (db : Database)
    (file : start.isDirectory s.place = false) : Tries s start (s.openUnlogged found db) := by
  unfold openUnlogged
  split
  · exact .bind (keeps_writeFile file rfl) fun _ => .bind keeps_useLog fun _ => .pure file rfl
  · exact .pure file rfl

theorem tries_create (file : start.isDirectory s.place = false) : Tries s start s.create := by
  unfold create
  split
  · exact .bind (keeps_writeFile file rfl) fun _ => tries_openBlank _ file
  · exact .bind (keeps_writeFile file rfl) fun _ => .pure file rfl

theorem tries_openFile {e : Entry} (file : e ≠ .directory → start.isDirectory s.place = false) :
    Tries s start (s.openFile e) := by
  unfold openFile
  refine .bind (keeps_settle _) fun found => ?_
  cases e with
  | database db isLogged =>
    cases isLogged with
    | true => exact .bind (keeps_logOf found) fun _ => .pure (file nofun) rfl
    | false => exact tries_openUnlogged found db (file nofun)
  | blank => exact tries_openBlank found (file nofun)
  | directory => exact .refuse _
  | device d => exact tries_create (file nofun)
  | file content =>
    dsimp only
    split
    · exact tries_create (file nofun)
    · exact .bind (.modify fun w spared => spared.trans (spares_leave found w)) fun _ => .refuse _

end Site

/-! ## Names -/

namespace Workspace

variable {w : Workspace} {p : Place}

theorem eq_foldl_of_spell? {start : Place} {parts : List (List UInt8)}
    (spelled : w.spell? start parts = some p) : p = parts.foldl Place.go start := by
  induction parts generalizing start with
  | nil => exact (Option.some.inj spelled).symm
  | cons part rest ih =>
    rw [spell?] at spelled
    split at spelled
    · cases spelled
    · exact ih spelled

theorem eq_spelled_of_databasePlace? {path : List UInt8} (led : w.databasePlace? path = some p) :
    p = .spelled w.home path := by
  rw [databasePlace?, Option.filter_eq_some_iff] at led
  exact eq_foldl_of_spell? led.1

end Workspace

namespace Opening

theorem openAt_ends (name : String) (s : Site) (start : Workspace) :
    Ends (openAt name s) start (Site.Opens s start) (Spares s.files start) := by
  unfold openAt
  refine Ends.bind (look_ends ?_)
  have unchanged : Spares s.files start start := .refl start
  cases found : start.entry? s.place with
  | none =>
    have vacant := Workspace.not_directory_of_none found
    refine Ends.bind (.get ?_)
    split
    · exact Site.tries_openFile (fun _ => vacant) _
        (.put Site.place_mem vacant rfl)
    · exact unchanged
  | some e =>
    have opens : Ends (s.openFile e) start (Site.Opens s start) (Spares s.files start) :=
      Site.tries_openFile (Workspace.not_directory_of_some found) start unchanged
    cases e with
    | directory =>
      dsimp only
      split
      · exact opens
      · exact unchanged
    | device d =>
      cases d with
      | out => exact unchanged
      | err => exact unchanged
      | _ => exact opens
    | _ => exact opens

/-- What opening a database leaves: directories have been made, and then its own files were worked
on. -/
def Leaves (own : List Place) (start w : Workspace) : Prop :=
  ∃ between, Spares [] start between ∧ Spares own between w

namespace Leaves

variable {own : List Place} {start w : Workspace} {p : Place}

theorem home (left : Leaves own start w) : w.home = start.home := by
  obtain ⟨between, made, worked⟩ := left
  exact worked.home.trans made.home

theorem fileAt? (left : Leaves own start w) (apart : p ∉ own) :
    w.fileAt? p = start.fileAt? p := by
  obtain ⟨between, made, worked⟩ := left
  exact (worked.files p apart).trans (made.files p List.not_mem_nil)

theorem reach? (left : Leaves own start w) {path : List UInt8} (leads : start.reach? path = some p) :
    w.reach? path = some p := by
  obtain ⟨between, made, worked⟩ := left
  exact worked.reach? (made.reach? leads)

theorem devices (left : Leaves own start w) {d : Device} (device : w.entry? p = some (.device d)) :
    start.entry? p = some (.device d) := by
  obtain ⟨between, made, worked⟩ := left
  exact made.devices p d (worked.devices p d device)

end Leaves

/-- An open database works on its own files, of which its file is no directory. -/
structure Settled (own : List Place) (start : Workspace) (o : Opened) (w : Workspace) : Prop where
  left : Leaves own start w
  files : ∀ s, o.site = some s → s.files = own
  file : ∀ s, o.site = some s → w.isDirectory s.place = false

theorem keeps_makeParents (name : String) (start : Workspace) :
    Keeps (Spares [] start) (makeParents name) := by
  refine .of_run fun w spared => spared.trans ?_
  show Spares [] w (makeParents name w).2
  unfold makeParents
  dsimp only
  split
  · rename_i made
    exact congrArg Prod.snd made ▸ Spares.makeDirectories _ _ _
  · rename_i made
    exact congrArg Prod.snd made ▸ Spares.makeDirectories _ _ _

theorem databaseFiles_of_file {name : String} {l : Locator} (home : Place)
    (named : Locator.ofName name = .ok l) (kept : l.isTransient = false) :
    databaseFiles home name = (Site.mk (.spelled home l.path) l).files := by
  simp [databaseFiles, named, kept]

theorem openSite_ends {name : String} {l : Locator} {start between : Workspace}
    (named : Locator.ofName name = .ok l) (kept : l.isTransient = false)
    (made : Spares [] start between) :
    Ends (openSite name l) between (Settled (databaseFiles start.home name) start)
      (Leaves (databaseFiles start.home name) start) := by
  have files := databaseFiles_of_file start.home named kept
  have unchanged : Leaves (databaseFiles start.home name) start between :=
    ⟨between, made, .refl between⟩
  unfold openSite
  refine Ends.bind (.get ?_)
  cases led : between.databasePlace? l.path with
  | none => exact unchanged
  | some place =>
    obtain rfl := Workspace.eq_spelled_of_databasePlace? led
    rw [made.home] at *
    dsimp only
    split
    · exact unchanged
    · refine (openAt_ends name _ between).imp (fun o w opens => ?_) fun w spared =>
        ⟨between, made, files ▸ spared⟩
      have own : ∀ s, o.site = some s → s = ⟨.spelled start.home l.path, l⟩ := fun s site =>
        Option.some.inj (site.symm.trans opens.site)
      refine ⟨⟨between, made, files ▸ opens.spared⟩, fun s site => ?_, fun s site => ?_⟩
      · rw [own s site, files]
      · rw [own s site]
        exact opens.spared.not_directory Site.place_mem opens.file

/-- Whether a database is opened or not, other files than its own are as they were. -/
theorem openDatabase_ends (name : String) (start : Workspace) :
    Ends (openDatabase name) start (Settled (databaseFiles start.home name) start)
      (Leaves (databaseFiles start.home name) start) := by
  unfold openDatabase
  refine Ends.bind ((keeps_makeParents name start start (.refl start)).imp
    (fun _ between made => ?_) fun w made => ⟨w, made, .refl w⟩)
  have unchanged : Leaves (databaseFiles start.home name) start between :=
    ⟨between, made, .refl between⟩
  dsimp only
  split
  · exact unchanged
  cases named : Locator.ofName name with
  | error e => exact unchanged
  | ok l =>
    show Ends (if l.isTransient then openTransient name l else openSite name l) between _ _
    split
    · unfold openTransient
      split
      · exact unchanged
      split
      · exact unchanged
      · exact ⟨unchanged, nofun, nofun⟩
    · rename_i kept
      exact openSite_ends named (Bool.eq_false_iff.mpr kept) made

end Opening

end NetRegistry.Cli
