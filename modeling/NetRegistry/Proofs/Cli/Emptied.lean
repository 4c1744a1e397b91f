/-
# Proofs.Cli.Emptied -- files that are written beside an open database

Writing a file empties it first.  A file that is none of the open database's own does
not touch the database; one that is may take it away (`emptied_cases`), and then it is
not brought back when the database is closed (`leavesAlone_emptied`).

So what was written before closing is read after it (`content?_close`).
-/
import NetRegistry.Cli.Run
import NetRegistry.Proofs.Cli.Opening

namespace NetRegistry.Cli

set_option autoImplicit false

open Text (bytesOf)
open Workspace (Spares)
open Act

variable {w : Workspace} {place : Place} {o : Opened} {file : String}

/-! ## Closing -/

/-- Closing a database leaves a place alone: it does not take its log away there, and does not write
there what it keeps. -/
structure LeavesAlone (o : Opened) (place : Place) : Prop where
  log : ∀ s, o.site = some s → place ≠ s.log
  index : ∀ s, o.site = some s → place ≠ s.index
  own : ∀ s, o.site = some s → o.isKept = true → place ≠ s.place

theorem LeavesAlone.of_site {s : Site} (site : o.site = some s) (log : place ≠ s.log)
    (index : place ≠ s.index) (own : o.isKept = true → place ≠ s.place) : LeavesAlone o place := by
  have only (t : Site) (same : o.site = some t) : s = t := Option.some.inj (site.symm.trans same)
  exact ⟨fun t same => only t same ▸ log, fun t same => only t same ▸ index,
    fun t same => only t same ▸ own⟩

theorem LeavesAlone.of_not_mem (apart : ∀ s, o.site = some s → place ∉ s.files) :
    LeavesAlone o place where
  log s site same := apart s site (same ▸ Site.log_mem)
  index s site same := apart s site (same ▸ Site.index_mem)
  own s site _ same := apart s site (same ▸ Site.place_mem)

theorem entry?_leave {s : Site} (use : LogUse) (log : place ≠ s.log) (index : place ≠ s.index) :
    Workspace.entry? (s.leave use w) place = w.entry? place := by
  unfold Site.leave
  split
  · rw [Workspace.entry?_removeAt_ne index, Workspace.entry?_removeAt_ne log]
  · exact Workspace.entry?_removeAt_ne log
  · rfl

theorem entry?_close (alone : LeavesAlone o place) :
    Workspace.entry? (o.close w) place = w.entry? place := by
  unfold Opened.close
  split
  · rfl
  rename_i s site
  have left := entry?_leave (w := w) o.log (alone.log s site) (alone.index s site)
  dsimp only
  split
  · rename_i kept
    rw [Workspace.entry?_put_ne (alone.own s site kept), left]
  · exact left

theorem spares_close (file : ∀ s, o.site = some s → w.isDirectory s.place = false) :
    ∃ touched, Spares touched w (o.close w) := by
  unfold Opened.close
  split
  · exact ⟨[], .refl w⟩
  rename_i s site
  have left := s.spares_leave o.log w
  refine ⟨s.files, ?_⟩
  dsimp only
  split
  · exact left.trans (.put Site.place_mem (left.not_directory Site.place_mem (file s site)) rfl)
  · exact left

/-- A file that a path leads to is written without harm to anything else. -/
theorem spares_written (target : w.target? file = some place) (content : ByteArray) :
    Spares [place] w (w.put place (.file content)) :=
  .put (List.mem_singleton.mpr rfl) (Workspace.target?_eq_some_iff.mp target).2 rfl

/-- What was written before closing is read after it. -/
theorem content?_close {content : ByteArray} (target : w.target? file = some place)
    (alone : LeavesAlone o place) (closable : ∀ s, o.site = some s → w.isDirectory s.place = false) :
    Workspace.content? (o.close (w.put place (.file content))) file = some content := by
  obtain ⟨leads, fresh⟩ := Workspace.target?_eq_some_iff.mp target
  have written := spares_written target content
  obtain ⟨touched, closed⟩ : ∃ touched, Spares touched (w.put place (.file content))
      (o.close (w.put place (.file content))) :=
    spares_close fun s site => Workspace.not_directory_put rfl (closable s site)
  refine Workspace.content?_of_reach? (closed.reach? (written.reach? leads)) ?_
  refine Workspace.fileAt?_eq_some_iff.mpr ⟨?_, nofun⟩
  rw [entry?_close alone]
  exact Workspace.entry?_put_self fresh

/-! ## Writing -/

/-- A file can be written: its path leads to a place where no directory and no device is. -/
structure Writable (w : Workspace) (file : String) (place : Place) : Prop where
  target : w.target? file = some place
  plain : ∀ d, w.entry? place ≠ some (.device d)

theorem Writable.put (writable : Writable w file place) (content : ByteArray) :
    Writable (w.put place (.file content)) file place := by
  obtain ⟨leads, fresh⟩ := Workspace.target?_eq_some_iff.mp writable.target
  have written := spares_written writable.target content
  have found := Workspace.entry?_put_self (e := .file content) fresh
  refine ⟨Workspace.target?_eq_some_iff.mpr ⟨written.reach? leads, ?_⟩, fun d => ?_⟩
  · exact Workspace.not_directory_of_some found nofun
  · simp [found]

/-- A file that is written is emptied first, which may take the database away. -/
theorem run_writeFile {s : State} (writable : Writable s.files file place) (text : String) :
    (writeFile file text).run s = (.ok (), { s with
      files := s.files.put place (.file text.toUTF8)
      opened := (s.opened.emptied place).2
      loss := s.loss <|> (s.opened.emptied place).1 }) := by
  show writeFile file text s = _
  rw [writeFile, writable.target]
  show writeAt place text s = _
  unfold writeAt
  split
  · rename_i d found
    exact absurd found (writable.plain d)
  · rfl

/-! ## Emptying -/

theorem emptied_of_not_mem (apart : ∀ s, o.site = some s → place ∉ s.files) :
    o.emptied place = (none, o) := by
  unfold Opened.emptied
  split
  · rfl
  rename_i s site
  have other := apart s site
  have notPlace : place ≠ s.place := fun same => other (same ▸ Site.place_mem)
  have notLog : place ≠ s.log := fun same => other (same ▸ Site.log_mem)
  have notMark : place ≠ s.mark := fun same => other (by simp [same, Site.files])
  simp [notPlace, notLog, notMark]

theorem site_emptied : (o.emptied place).2.site = o.site := by
  unfold Opened.emptied
  split
  · rfl
  dsimp only
  split
  · split <;> rfl
  split
  · rfl
  split <;> rfl

/-- The ways in which a file that is emptied takes the database away: it is the file of the
database, which is then not written again, or it is the mark of a lock. -/
theorem emptied_cases {e : StorageError} (lost : (o.emptied place).1 = some e) :
    ∃ s, o.site = some s ∧
      (place = s.place ∧ (o.emptied place).2 = { o with isKept := false } ∨
        place = s.mark ∧ (o.emptied place).2 = o) := by
  unfold Opened.emptied at lost ⊢
  split at lost
  · cases lost
  rename_i s site
  dsimp only at lost
  split at lost
  · rename_i own
    split at lost
    · cases lost
    · rename_i outside
      exact ⟨s, site, Or.inl ⟨own, by simp only [site, own, if_true, if_neg outside]⟩⟩
  split at lost
  · cases lost
  split at lost
  · rename_i other inside marked
    have isMark : place = s.mark := of_decide_eq_true (Bool.and_eq_true_iff.mp marked).1
    refine ⟨s, site, Or.inr ⟨isMark, ?_⟩⟩
    simp only [site]
    rw [if_neg other, if_neg inside, if_pos marked]
  · cases lost

theorem beside_ne {suffix : String} (p : Place) (named : bytesOf suffix ≠ []) :
    p.beside suffix ≠ p := fun same => by
  have last := congrArg (·.getLastD []) same
  simp [Place.beside, named] at last

theorem beside_ne_beside {a b : String} (p : Place) (other : bytesOf a ≠ bytesOf b) :
    p.beside a ≠ p.beside b := fun same => other (by simpa [Place.beside] using same)

/-- A file that takes the database away when it is emptied is not brought back on closing. -/
theorem leavesAlone_emptied {e : StorageError} (lost : (o.emptied place).1 = some e) :
    LeavesAlone (o.emptied place).2 place := by
  obtain ⟨s, site, ⟨rfl, left⟩ | ⟨rfl, left⟩⟩ := emptied_cases lost
  · rw [left]
    exact .of_site site (beside_ne s.place (by decide +kernel)).symm
      (beside_ne s.place (by decide +kernel)).symm nofun
  · rw [left]
    exact .of_site site (beside_ne_beside s.place (by decide +kernel))
      (beside_ne_beside s.place (by decide +kernel)) fun _ => beside_ne s.place (by decide +kernel)

end NetRegistry.Cli
