/-
# Proofs.Import.Keyed -- tables whose rows are known by owner and key

Organizations are found again by registrar and handle, netblocks by registrar and
stored addresses.  `Keying.Shows` says what such a table shows: under every owner
and key there is one row, as `content` has it, or none.  It is kept by the ways in
which imports change tables: a row is refreshed or added (`Shows.refresh`,
`Shows.append`), rows are deleted by owner and what they show (`Shows.filter`), and
what nobody is shown is changed (`Shows.map`).
-/
import NetRegistry.Store.Write

namespace NetRegistry

set_option autoImplicit false

/-- How the rows of a table are told apart, and what of a row an import writes. -/
structure Keying (α κ : Type) where
  owner : α → RowId
  key : α → κ
  /-- The row without its id and its link. -/
  written : α → α

namespace Keying

variable {α κ : Type} [DecidableEq κ] (K : Keying α κ)

/-- Whether a row has an owner and a key. -/
def has (g : RowId) (k : κ) (r : α) : Bool := K.owner r == g && K.key r == k

/-- Under every owner and key there is one row, which shows what the content says, or none. -/
def Shows (rows : List α) (content : RowId → κ → Option α) : Prop :=
  ∀ g k, (rows.filter (K.has g k)).map K.written = (content g k).toList

/-- The content with another entry under one owner and key. -/
def put (content : RowId → κ → Option α) (owner : RowId) (key : κ) (entry : α) :
    RowId → κ → Option α :=
  fun g k => if g = owner ∧ k = key then some entry else content g k

variable {K} {rows : List α} {content : RowId → κ → Option α} {owner g : RowId} {key k : κ}
  {entry : α} {change : α → α}

theorem has_iff {r : α} : K.has g k r = true ↔ K.owner r = g ∧ K.key r = k := by
  simp [has]

theorem has_eq_decide : K.has g k = fun r => decide (K.owner r = g ∧ K.key r = k) := by
  funext r
  rw [Bool.eq_iff_iff, has_iff, decide_eq_true_iff]

theorem has_change (sameOwner : ∀ r, K.owner (change r) = K.owner r)
    (sameKey : ∀ r, K.key (change r) = K.key r) : (K.has g k ∘ change) = K.has g k := by
  funext r
  simp [has, sameOwner, sameKey]

namespace Shows

theorem congr {content' : RowId → κ → Option α} (shows : K.Shows rows content)
    (same : ∀ g k, content' g k = content g k) : K.Shows rows content' := by
  intro g k
  rw [same, shows g k]

/-- A row is the only one under its owner and key, and is what the content says. -/
theorem of_mem (shows : K.Shows rows content) {r : α} (member : r ∈ rows) :
    rows.filter (K.has (K.owner r) (K.key r)) = [r] ∧
      content (K.owner r) (K.key r) = some (K.written r) := by
  have there : r ∈ rows.filter (K.has (K.owner r) (K.key r)) :=
    List.mem_filter.mpr ⟨member, has_iff.mpr ⟨rfl, rfl⟩⟩
  have shown := shows (K.owner r) (K.key r)
  cases found : content (K.owner r) (K.key r) with
  | none =>
    rw [found] at shown
    rw [List.map_eq_nil_iff.mp shown] at there
    cases there
  | some entry =>
    rw [found] at shown
    obtain ⟨only, rows', written⟩ := List.map_eq_singleton_iff.mp shown
    rw [rows'] at there
    obtain rfl := List.mem_singleton.mp there
    exact ⟨rows', congrArg some written.symm⟩

/-- What nobody is shown may change. -/
theorem map (shows : K.Shows rows content) (sameOwner : ∀ r, K.owner (change r) = K.owner r)
    (sameKey : ∀ r, K.key (change r) = K.key r)
    (sameEntry : ∀ r, K.written (change r) = K.written r) : K.Shows (rows.map change) content := by
  intro g k
  rw [List.filter_map, has_change sameOwner sameKey, List.map_map, ← shows g k]
  exact List.map_congr_left fun r _ => sameEntry r

/-- Rows may be deleted by their owner and by what they show. -/
theorem filter (shows : K.Shows rows content) {keep : α → Bool} {keep' : RowId → α → Bool}
    (told : ∀ r, keep r = keep' (K.owner r) (K.written r)) :
    K.Shows (rows.filter keep) fun g k => (content g k).filter (keep' g) := by
  intro g k
  have rearranged : (rows.filter keep).filter (K.has g k) =
      (rows.filter (K.has g k)).filter (fun r => keep' g (K.written r)) := by
    rw [List.filter_filter, List.filter_filter]
    refine List.filter_congr fun r _ => ?_
    by_cases there : K.has g k r = true
    · rw [told, (has_iff.mp there).1, Bool.and_comm]
    · rw [Bool.eq_false_iff.mpr there, Bool.false_and, Bool.and_false]
  have shown := congrArg (List.filter (keep' g)) (shows g k)
  rw [List.filter_map] at shown
  rw [rearranged]
  exact shown.trans Option.toList_filter.symm

/-- A row that was there is written again. -/
theorem refresh (shows : K.Shows rows content) (there : rows.any (K.has owner key) = true)
    (sameOwner : ∀ r, K.owner (change r) = K.owner r) (sameKey : ∀ r, K.key (change r) = K.key r)
    (others : ∀ r, K.has owner key r = false → change r = r)
    (refreshed : ∀ r, K.has owner key r = true → K.written (change r) = entry) :
    K.Shows (rows.map change) (put content owner key entry) := by
  intro g k
  rw [List.filter_map, has_change sameOwner sameKey, List.map_map]
  by_cases here : g = owner ∧ k = key
  · obtain ⟨rfl, rfl⟩ := here
    have shown := shows g k
    obtain ⟨r, member, has⟩ := List.any_eq_true.mp there
    have inside : r ∈ rows.filter (K.has g k) := List.mem_filter.mpr ⟨member, has⟩
    -- There is a row, so there is exactly one.
    cases found : content g k with
    | none =>
      rw [found] at shown
      rw [List.map_eq_nil_iff.mp shown] at inside
      cases inside
    | some e =>
      rw [found] at shown
      obtain ⟨only, rows', -⟩ := List.map_eq_singleton_iff.mp shown
      have has' : K.has g k only = true := by
        have member' : only ∈ rows.filter (K.has g k) := by rw [rows']; exact List.mem_singleton.mpr rfl
        exact (List.mem_filter.mp member').2
      rw [rows']
      simp [put, refreshed only has']
  · have elsewhere : put content owner key entry g k = content g k := if_neg here
    rw [elsewhere, ← shows g k]
    refine List.map_congr_left fun r member => ?_
    have has := has_iff.mp (List.mem_filter.mp member).2
    have apart : K.has owner key r = false := by
      refine Bool.eq_false_iff.mpr fun same => here ?_
      obtain ⟨ofOwner, ofKey⟩ := has_iff.mp same
      exact ⟨has.1.symm.trans ofOwner, has.2.symm.trans ofKey⟩
    exact congrArg K.written (others r apart)

/-- A row that was not there is added. -/
theorem append (shows : K.Shows rows content) (missing : rows.any (K.has owner key) = false)
    {row : α} (has : K.has owner key row = true) (written : K.written row = entry) :
    K.Shows (rows ++ [row]) (put content owner key entry) := by
  intro g k
  rw [List.filter_append, List.map_append, shows g k]
  by_cases here : g = owner ∧ k = key
  · obtain ⟨rfl, rfl⟩ := here
    have empty : rows.filter (K.has g k) = [] := by
      refine List.filter_eq_nil_iff.mpr fun r member there => ?_
      exact absurd there (List.any_eq_false.mp missing r member)
    have shown := shows g k
    rw [empty] at shown
    rw [← shown, List.filter_cons_of_pos has]
    simp [put, written]
  · have elsewhere : put content owner key entry g k = content g k := if_neg here
    have apart : ¬ K.has g k row = true := by
      intro same
      obtain ⟨ofOwner, ofKey⟩ := has_iff.mp same
      obtain ⟨ofOwner', ofKey'⟩ := has_iff.mp has
      exact here ⟨ofOwner.symm.trans ofOwner', ofKey.symm.trans ofKey'⟩
    rw [elsewhere, List.filter_cons_of_neg apart]
    simp

end Shows

end Keying

end NetRegistry
