/-
# Proofs.Cli.Workspace -- what a change of some files leaves alone

`Spares touched w w'` says that `w'` came about from `w` by changes that spare the
files at other places than the given ones, and all directories.  Changes one after
the other do so (`Spares.trans`), and so do the steps that they are made of: a file
that is written, a file that is taken away, a directory that is made where nothing
was.

Since directories stay, a path that leads to a place still does (`Spares.reach?`).
-/
import NetRegistry.Cli.Workspace

namespace NetRegistry.Cli

set_option autoImplicit false

open Text (bytesOf)

/-- The place that a path spells, whether or not it leads there. -/
def Place.spelled (home : Place) (path : List UInt8) : Place :=
  (parts path).foldl go (start home path)

namespace Workspace

variable {touched : List Place} {w w' w'' : Workspace} {p q : Place} {e : Entry}

/-! ## Entries -/

/-- The file at a place, if there is one. -/
def fileAt? (w : Workspace) (place : Place) : Option Entry :=
  if w.isDirectory place then none else w.entry? place

/-- The place that a path spells from home. -/
def spelled (w : Workspace) (path : String) : Place := .spelled w.home (bytesOf path)

theorem isDirectory_iff : w.isDirectory p = true ↔ w.entry? p = some .directory := by
  rw [isDirectory]
  split <;> simp_all

theorem not_directory (other : w.entry? p ≠ some .directory) : w.isDirectory p = false :=
  Bool.eq_false_iff.mpr (mt isDirectory_iff.mp other)

theorem not_directory_of_none (vacant : w.entry? p = none) : w.isDirectory p = false :=
  not_directory (by simp [vacant])

theorem not_directory_of_some (found : w.entry? p = some e) (other : e ≠ .directory) :
    w.isDirectory p = false := by
  refine not_directory ?_
  rw [found]
  exact fun same => other (Option.some.inj same)

theorem fileAt?_eq_some_iff : w.fileAt? p = some e ↔ w.entry? p = some e ∧ e ≠ .directory := by
  rw [fileAt?]
  split
  · rename_i directory
    rw [isDirectory_iff.mp directory]
    simp +contextual [eq_comm]
  · rename_i other
    rw [isDirectory_iff] at other
    exact ⟨fun found => ⟨found, fun same => other (same ▸ found)⟩, And.left⟩

theorem fileAt?_congr (same : w'.entry? p = w.entry? p) : w'.fileAt? p = w.fileAt? p := by
  rw [fileAt?, fileAt?, isDirectory, isDirectory, same]

theorem find?_others (entries : List (Place × Entry)) :
    (entries.filter (·.1 != p)).find? (·.1 == q) =
      if q = p then none else entries.find? (·.1 == q) := by
  rw [List.find?_filter]
  split
  · subst q
    exact List.find?_eq_none.mpr fun m _ => by simp
  · rename_i other
    congr 1
    funext m
    by_cases named : m.1 = q <;> simp [named, other]

theorem entry?_above (above : q.isPrefixOf w.home) : w.entry? q = some .directory := if_pos above

theorem entry?_below (below : ¬ q.isPrefixOf w.home) :
    w.entry? q = (w.entries.find? (·.1 == q)).map (·.2) := if_neg below

/-- What is above home is always a directory; elsewhere an entry is found where it was put. -/
theorem entry?_put : entry? (w.put p e) q =
    if q.isPrefixOf w.home then some .directory else if q = p then some e else w.entry? q := by
  split
  · rename_i above
    exact entry?_above above
  · rename_i below
    rw [entry?_below below, entry?_below (w := w.put p e) below, put, List.find?_append,
      find?_others]
    by_cases same : q = p <;> simp [same, Ne.symm]

theorem entry?_remove : entry? (w.remove p) q =
    if q.isPrefixOf w.home then some .directory else if q = p then none else w.entry? q := by
  split
  · rename_i above
    exact entry?_above above
  · rename_i below
    rw [entry?_below below, entry?_below (w := w.remove p) below, remove, find?_others]
    split <;> rfl

theorem entry?_put_ne (other : q ≠ p) : entry? (w.put p e) q = w.entry? q := by
  rw [entry?_put, if_neg other]
  split
  · rename_i above
    exact (entry?_above above).symm
  · rfl

theorem entry?_put_self (file : w.isDirectory p = false) : entry? (w.put p e) p = some e := by
  have below : ¬ p.isPrefixOf w.home := fun above => by
    rw [isDirectory_iff.mpr (entry?_above above)] at file
    cases file
  rw [entry?_put, if_neg below, if_pos rfl]

theorem entry?_removeAt_ne (other : q ≠ p) : entry? (w.removeAt p) q = w.entry? q := by
  rw [removeAt]
  split
  · rfl
  · rw [entry?_remove, if_neg other]
    split
    · rename_i above
      exact (entry?_above above).symm
    · rfl

theorem not_directory_of_bytes? (kept : e.bytes?.isSome) : e ≠ .directory := by
  rintro rfl
  cases kept

/-- A file that is put somewhere makes no directory. -/
theorem isDirectory_put (kept : e.bytes?.isSome) (directory : (w.put p e).isDirectory q = true) :
    w.isDirectory q = true := by
  rw [isDirectory_iff, entry?_put] at directory
  split at directory
  · rename_i above
    exact isDirectory_iff.mpr (entry?_above above)
  split at directory
  · exact absurd (Option.some.inj directory) (not_directory_of_bytes? kept)
  · exact isDirectory_iff.mpr directory

theorem not_directory_put (kept : e.bytes?.isSome) (file : w.isDirectory q = false) :
    (w.put p e).isDirectory q = false :=
  Bool.eq_false_iff.mpr fun directory => Bool.eq_false_iff.mp file (isDirectory_put kept directory)

/-! ## Changes -/

/-- One workspace comes from another by changes of files at the touched places and by making
directories at others where nothing was. -/
structure Spares (touched : List Place) (w w' : Workspace) : Prop where
  home : w'.home = w.home
  directories : ∀ p, w.isDirectory p = true → w'.isDirectory p = true
  files : ∀ p ∉ touched, w'.fileAt? p = w.fileAt? p
  /-- No directory is made at a touched place, -/
  made : ∀ p ∈ touched, w'.isDirectory p = true → w.isDirectory p = true
  /-- and no device anywhere. -/
  devices : ∀ p d, w'.entry? p = some (.device d) → w.entry? p = some (.device d)

namespace Spares

theorem refl (w : Workspace) : Spares touched w w :=
  ⟨rfl, fun _ => id, fun _ _ => rfl, fun _ _ => id, fun _ _ => id⟩

theorem trans (first : Spares touched w w') (next : Spares touched w' w'') :
    Spares touched w w'' where
  home := next.home.trans first.home
  directories p directory := next.directories p (first.directories p directory)
  files p other := (next.files p other).trans (first.files p other)
  made p member directory := first.made p member (next.made p member directory)
  devices p d device := first.devices p d (next.devices p d device)

theorem not_directory (spared : Spares touched w w') (member : p ∈ touched)
    (file : w.isDirectory p = false) : w'.isDirectory p = false :=
  Bool.eq_false_iff.mpr fun directory =>
    Bool.eq_false_iff.mp file (spared.made p member directory)

theorem put (member : p ∈ touched) (file : w.isDirectory p = false) (kept : e.bytes?.isSome) :
    Spares touched w (w.put p e) where
  home := rfl
  directories q directory := by
    have other : q ≠ p := by
      rintro rfl
      rw [file] at directory
      cases directory
    rw [isDirectory_iff, entry?_put_ne other]
    exact isDirectory_iff.mp directory
  files q untouched := fileAt?_congr (entry?_put_ne fun same => untouched (same ▸ member))
  made _ _ directory := isDirectory_put kept directory
  devices q d device := by
    rw [entry?_put] at device
    split at device
    · cases device
    split at device
    · obtain rfl := Option.some.inj device
      cases kept
    · exact device

theorem removeAt (member : p ∈ touched) : Spares touched w (w.removeAt p) := by
  rw [Workspace.removeAt]
  split
  · exact refl w
  rename_i file
  have gone (q : Place) (e : Entry) (found : entry? (w.remove p) q = some e) :
      w.entry? q = some e := by
    rw [entry?_remove] at found
    split at found
    · rename_i above
      exact (entry?_above above).trans found
    split at found
    · cases found
    · exact found
  have same {q : Place} (other : q ≠ p) : entry? (w.remove p) q = w.entry? q := by
    have kept := entry?_removeAt_ne (w := w) other
    rwa [Workspace.removeAt, if_neg file] at kept
  refine ⟨rfl, fun q directory => ?_, fun q untouched => ?_, fun q _ directory => ?_, fun q d => ?_⟩
  · have other : q ≠ p := fun same => file (same ▸ directory)
    exact isDirectory_iff.mpr ((same other).trans (isDirectory_iff.mp directory))
  · exact fileAt?_congr (same fun same => untouched (same ▸ member))
  · exact isDirectory_iff.mpr (gone q _ (isDirectory_iff.mp directory))
  · exact gone q _

/-- A directory that is made where nothing was. -/
theorem putDirectory (vacant : w.entry? p = none) : Spares [] w (w.put p .directory) where
  home := rfl
  directories q directory := by
    rw [isDirectory_iff, entry?_put, isDirectory_iff.mp directory]
    simp
  files q _ := by
    by_cases same : q = p
    · subst same
      have file := not_directory_of_none vacant
      have directory := isDirectory_iff.mpr (entry?_put_self file (e := .directory))
      simp [fileAt?, directory, file, vacant]
    · exact fileAt?_congr (entry?_put_ne same)
  made _ member := absurd member List.not_mem_nil
  devices q d device := by
    rw [entry?_put] at device
    split at device
    · cases device
    split at device
    · cases device
    · exact device

theorem makeDirectory? {start : Place} {parts : List (List UInt8)}
    (made : w.makeDirectory? start parts = some w') : Spares [] w w' := by
  rw [Workspace.makeDirectory?] at made
  split at made
  · cases made
  split at made
  · obtain rfl := Option.some.inj made
    exact refl w
  · cases made
  · rename_i vacant
    obtain rfl := Option.some.inj made
    exact putDirectory vacant

theorem makeDirectories (start : Place) (above : List (List (List UInt8))) (w : Workspace) :
    Spares [] w (w.makeDirectories start above).2 := by
  induction above generalizing w with
  | nil => exact refl w
  | cons parts rest ih =>
    rw [Workspace.makeDirectories]
    split
    · exact refl w
    · rename_i between made
      exact (Spares.makeDirectory? made).trans (ih between)

/-- A path that leads somewhere still leads there. -/
theorem follow? (spared : Spares touched w w') {start : Place} {parts : List (List UInt8)}
    (leads : w.follow? start parts = some p) : w'.follow? start parts = some p := by
  induction parts generalizing start with
  | nil => exact leads
  | cons part rest ih =>
    rw [Workspace.follow?] at leads ⊢
    split at leads
    · rename_i enterable
      rw [Bool.and_eq_true] at enterable
      rw [spared.directories start enterable.1, enterable.2]
      exact ih leads
    · cases leads

theorem reach? (spared : Spares touched w w') {path : List UInt8}
    (leads : w.reach? path = some p) : w'.reach? path = some p := by
  rw [Workspace.reach?] at leads ⊢
  split at leads
  · cases leads
  · rename_i fits
    rw [if_neg fits, spared.home]
    exact spared.follow? leads

end Spares

/-! ## Paths -/

theorem eq_foldl_of_follow? {start : Place} {parts : List (List UInt8)}
    (leads : w.follow? start parts = some p) : p = parts.foldl Place.go start := by
  induction parts generalizing start with
  | nil => exact (Option.some.inj leads).symm
  | cons part rest ih =>
    rw [follow?] at leads
    split at leads
    · exact ih leads
    · cases leads

theorem eq_spelled_of_reach? {path : List UInt8} (leads : w.reach? path = some p) :
    p = .spelled w.home path := by
  rw [reach?] at leads
  split at leads
  · cases leads
  · exact eq_foldl_of_follow? leads

theorem eq_spelled_of_target? {path : String} (leads : w.target? path = some p) :
    p = w.spelled path := by
  rw [target?, Option.filter_eq_some_iff] at leads
  exact eq_spelled_of_reach? leads.1

theorem target?_eq_some_iff {path : String} : w.target? path = some p ↔
    w.reach? (bytesOf path) = some p ∧ w.isDirectory p = false := by
  simp [target?, Option.filter_eq_some_iff]

/-- What is read at a path is the content of the file there. -/
theorem content?_of_reach? {path : String} {content : ByteArray}
    (leads : w.reach? (bytesOf path) = some p) (found : w.fileAt? p = some (.file content)) :
    w.content? path = some content := by
  rw [content?, leads]
  simp [(fileAt?_eq_some_iff.mp found).1, Entry.content?]

end Workspace

end NetRegistry.Cli
