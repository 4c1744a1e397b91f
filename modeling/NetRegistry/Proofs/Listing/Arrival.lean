/-
# Proofs.Listing.Arrival -- the place of each resolved list

Ready definitions are placed first come, first served, and those that arrive
together in declaration order.  So the place of a definition is told by two
numbers: when the last of its includes was placed (`Resolution.latest`), and
where it was declared.

* `Resolution.sorted_step`: those placed and those ready are in that order after
  each step.  Includes of these are placed already, so later steps do not move
  them, and what a step releases has waited for the position that it places.
* `Resolution.idxOf_lt_iff`: in a list that is so ordered, the order decides
  which place comes first.
* `Resolution.IncludeChain.later`: as the latest of the includes come later, so
  chains of includes get longer.

**Main theorem** `resolve_order_exact`.
-/
import Mathlib.Data.List.Basic
import Mathlib.Order.Lattice.Nat
import NetRegistry.Proofs.Listing.BuildOrder

namespace NetRegistry

set_option autoImplicit false

namespace Resolution

variable {defs : List Definition} {order : List Nat} {i j : Nat}

/-! ## The latest of the includes -/

/-- Positions that the definition at a position includes. -/
def includesAt (defs : List Definition) (i : Nat) : List Nat := (edges defs).getD i []

theorem includesAt_eq {d : Definition} (at_ : defs[i]? = some d) :
    includesAt defs i = targets defs d := by
  simp [includesAt, edges, at_]

/-- Place in an order of that include of the definition at `i` which comes last; -1 if it includes
nothing. -/
def latest (defs : List Definition) (order : List Nat) (i : Nat) : Int :=
  (includesAt defs i).foldl (fun place j => max place (order.idxOf j)) (-1)

/-- Order by the latest include, then by declaration. -/
def Precedes (defs : List Definition) (order : List Nat) (i j : Nat) : Prop :=
  latest defs order i < latest defs order j ∨ latest defs order i = latest defs order j ∧ i < j

theorem Precedes.asymm (first : Precedes defs order i j) : ¬ Precedes defs order j i := by
  unfold Precedes at *
  omega

theorem foldl_max_le_iff {α : Type} (place : α → Int) (l : List α) (start bound : Int) :
    l.foldl (fun m x => max m (place x)) start ≤ bound ↔
      start ≤ bound ∧ ∀ x ∈ l, place x ≤ bound := by
  induction l generalizing start with
  | nil => simp
  | cons x rest ih =>
    rw [List.foldl_cons, ih, Int.max_le, List.forall_mem_cons, and_assoc]

theorem foldl_max_eq {α : Type} (place : α → Int) (l : List α) (start : Int) :
    l.foldl (fun m x => max m (place x)) start = start ∨
      ∃ x ∈ l, l.foldl (fun m x => max m (place x)) start = place x := by
  induction l generalizing start with
  | nil => simp
  | cons x rest ih =>
    rw [List.foldl_cons]
    rcases ih (max start (place x)) with same | ⟨y, later, same⟩
    · rw [same]
      rcases Int.le_total start (place x) with above | below
      · exact .inr ⟨x, by simp, Int.max_eq_right above⟩
      · exact .inl (Int.max_eq_left below)
    · exact .inr ⟨y, List.mem_cons_of_mem x later, same⟩

theorem latest_le_iff {bound : Int} : latest defs order i ≤ bound ↔
    -1 ≤ bound ∧ ∀ t ∈ includesAt defs i, (order.idxOf t : Int) ≤ bound :=
  foldl_max_le_iff (fun t => (order.idxOf t : Int)) _ _ _

theorem idxOf_le_latest (order : List Nat) {t : Nat} (member : t ∈ includesAt defs i) :
    (order.idxOf t : Int) ≤ latest defs order i :=
  (latest_le_iff.mp (Int.le_refl _)).2 t member

theorem exists_latest (order : List Nat) {t : Nat} (member : t ∈ includesAt defs i) :
    ∃ u ∈ includesAt defs i, latest defs order i = order.idxOf u := by
  rcases foldl_max_eq (fun t => (order.idxOf t : Int)) (includesAt defs i) (-1) with none | found
  · have some := idxOf_le_latest order member
    have least : latest defs order i = -1 := none
    omega
  · exact found

theorem latest_lt_length (known : ∀ t ∈ includesAt defs i, t ∈ order) :
    latest defs order i < order.length := by
  have bound : latest defs order i ≤ order.length - 1 := by
    refine latest_le_iff.mpr ⟨by omega, fun t member => ?_⟩
    have inside := List.idxOf_lt_length_iff.mpr (known t member)
    omega
  omega

/-- What is placed later changes nothing for a definition whose includes are placed. -/
theorem latest_append {more : List Nat} (known : ∀ t ∈ includesAt defs i, t ∈ order) :
    latest defs (order ++ more) i = latest defs order i := by
  apply List.foldl_ext
  intro place t member
  rw [List.idxOf_append_of_mem (known t member)]

theorem precedes_append {more : List Nat} (known : ∀ t ∈ includesAt defs i, t ∈ order)
    (known' : ∀ t ∈ includesAt defs j, t ∈ order) :
    Precedes defs (order ++ more) i j ↔ Precedes defs order i j := by
  rw [Precedes, Precedes, latest_append known, latest_append known']

/-! ## What a step releases -/

theorem release_sublist (js pending : List Nat) : (release js pending).1.Sublist js := by
  induction js generalizing pending with
  | nil => exact .slnil
  | cons j rest ih =>
    rw [release]
    dsimp only
    split
    · exact (ih _).cons_cons j
    · exact (ih _).cons j

/-- The dependents of a position, in declaration order. -/
theorem dependents_ascending (edges : Edges) (i start : Nat) :
    ((edges.zipIdx start).flatMap fun (targets, k) => List.replicate (targets.count i) k).Pairwise
        (· ≤ ·) ∧
      ∀ k ∈ (edges.zipIdx start).flatMap fun (targets, k) => List.replicate (targets.count i) k,
        start ≤ k := by
  induction edges generalizing start with
  | nil => simp
  | cons targets rest ih =>
    obtain ⟨sorted, above⟩ := ih (start + 1)
    rw [List.zipIdx_cons, List.flatMap_cons]
    refine ⟨List.pairwise_append.mpr ⟨?_, sorted, ?_⟩, ?_⟩
    · simp [List.pairwise_replicate]
    · intro a first b later
      have same := List.eq_of_mem_replicate first
      have bound := above b later
      omega
    · intro k member
      rcases List.mem_append.mp member with first | later
      · exact Nat.le_of_eq (List.eq_of_mem_replicate first).symm
      · exact Nat.le_of_succ_le (above k later)

theorem released_ascending {pending : List Nat}
    (able : Releasable (dependents (edges defs) i) pending) :
    (release (dependents (edges defs) i) pending).1.Pairwise (· < ·) := by
  have sorted := (dependents_ascending (edges defs) i 0).1.sublist (release_sublist _ pending)
  refine (sorted.and able.nodup).imp ?_
  rintro a b ⟨atMost, apart⟩
  exact Nat.lt_of_le_of_ne atMost apart

theorem mem_includesAt_of_mem_dependents (member : j ∈ dependents (edges defs) i) :
    i ∈ includesAt defs j := by
  have at_ := List.getElem?_eq_getElem (lt_of_mem_dependents member)
  have positive := List.count_pos_iff.mpr member
  rw [count_dependents_edges at_] at positive
  rw [includesAt_eq at_]
  exact List.count_pos_iff.mp positive

/-! ## Those placed and those ready -/

/-- When every include refers to a position in a list, the list has all targets. -/
theorem mem_of_mem_includesAt {d : Definition} (at_ : defs[i]? = some d)
    (includes : ∀ name ∈ d.includes, ∃ j ∈ order, Definition.RefersTo defs name j) :
    ∀ t ∈ includesAt defs i, t ∈ order := by
  intro t member
  rw [includesAt_eq at_] at member
  obtain ⟨name, inside, found⟩ := List.mem_filterMap.mp member
  obtain ⟨j, there, refers⟩ := includes name inside
  exact RefersTo.unique refers (lastIndex?_eq_some_iff.mp found) ▸ there

namespace Placing

variable {s : Progress}

theorem includesAt_placed (placing : Placing defs s) (reached : i ∈ s.placed ++ s.ready) :
    ∀ t ∈ includesAt defs i, t ∈ s.placed := by
  obtain ⟨inside, zero⟩ := (placing.reached i).mp reached
  have at_ := List.getElem?_eq_getElem inside
  exact mem_of_mem_includesAt at_ (placing.includes_placed at_ zero)

/-- What a step releases has waited for the position that the step places. -/
theorem latest_released (placing : Placing defs s) {ready : List Nat} (first : s.ready = i :: ready)
    (out : j ∈ (release (dependents (edges defs) i) s.pending).1) :
    latest defs (s.placed ++ [i]) j = s.placed.length := by
  have known : ∀ t ∈ includesAt defs j, t ∈ s.placed ++ [i] := by
    have after := placing.step
    rw [Resolution.step, first] at after
    exact after.includesAt_placed (by simp [out])
  have lowered := (((placing.releasable first).mem_iff j).mp out).1
  have place : (s.placed ++ [i]).idxOf i = s.placed.length := by
    simp [List.idxOf_append_of_notMem (placing.fresh first)]
  have atLeast := idxOf_le_latest (s.placed ++ [i]) (mem_includesAt_of_mem_dependents lowered)
  have atMost := latest_lt_length known
  rw [place] at atLeast
  rw [List.length_append, List.length_singleton] at atMost
  omega

end Placing

/-- Those placed and those ready are ordered by their latest includes, then by declaration. -/
def Sorted (defs : List Definition) (s : Progress) : Prop :=
  (s.placed ++ s.ready).Pairwise (Precedes defs s.placed)

theorem sorted_start (defs : List Definition) : Sorted defs (start defs) := by
  have ascending : (start defs).ready.Pairwise (· < ·) :=
    List.pairwise_lt_range.sublist List.filter_sublist
  have none : ∀ i ∈ (start defs).ready, latest defs [] i = -1 := by
    intro i member
    have known := (placing_start defs).includesAt_placed (List.mem_append_right _ member)
    have empty : includesAt defs i = [] :=
      List.eq_nil_iff_forall_not_mem.mpr fun t inside => by cases known t inside
    rw [latest, empty]
    rfl
  refine ascending.imp_of_mem fun {a b} first second less => .inr ⟨?_, less⟩
  exact (none a first).trans (none b second).symm

theorem sorted_step {s : Progress} (placing : Placing defs s) (sorted : Sorted defs s) :
    Sorted defs (step (edges defs) s) := by
  unfold Resolution.step
  split
  · exact sorted
  · rename_i i ready first
    have able := placing.releasable first
    have known : ∀ a ∈ s.placed ++ s.ready, ∀ t ∈ includesAt defs a, t ∈ s.placed :=
      fun a member => placing.includesAt_placed member
    have parts : s.placed ++ [i] ++ (ready ++ (release (dependents (edges defs) i) s.pending).1) =
        s.placed ++ s.ready ++ (release (dependents (edges defs) i) s.pending).1 := by
      simp [first]
    unfold Sorted
    dsimp only
    rw [parts]
    refine List.pairwise_append.mpr ⟨?_, ?_, ?_⟩
    · refine List.Pairwise.imp_of_mem (fun {a b} here there before => ?_) sorted
      exact (precedes_append (known a here) (known b there)).mpr before
    · refine (released_ascending able).imp_of_mem fun {a b} here there less => .inr ⟨?_, less⟩
      exact (placing.latest_released first here).trans (placing.latest_released first there).symm
    · intro a old b out
      left
      rw [placing.latest_released first out, latest_append (known a old)]
      exact latest_lt_length (known a old)

theorem sorted_steps (n : Nat) {s : Progress} (placing : Placing defs s) (sorted : Sorted defs s) :
    Sorted defs (steps (edges defs) n s) := by
  induction n generalizing s with
  | zero => exact sorted
  | succ n ih => exact ih placing.step (sorted_step placing sorted)

theorem placed_sorted (defs : List Definition) :
    (placed defs).Pairwise (Precedes defs (placed defs)) := by
  have sorted := sorted_steps defs.length (placing_start defs) (sorted_start defs)
  exact (List.pairwise_append.mp sorted).1

theorem includesAt_placed (member : i ∈ placed defs) : ∀ t ∈ includesAt defs i, t ∈ placed defs :=
  (placing_ended defs).includesAt_placed (List.mem_append_left _ member)

/-- In an ordered list the order decides which place comes first. -/
theorem idxOf_lt_iff {r : Nat → Nat → Prop} {l : List Nat} (sorted : l.Pairwise r)
    (asymm : ∀ {a b}, r a b → ¬ r b a) (hi : i ∈ l) (hj : j ∈ l) :
    l.idxOf i < l.idxOf j ↔ r i j := by
  have ordered : ∀ {a b}, a ∈ l → b ∈ l → l.idxOf a < l.idxOf b → r a b := by
    intro a b ha hb less
    have at_ := List.pairwise_iff_getElem.mp sorted _ _ (List.idxOf_lt_length_iff.mpr ha)
      (List.idxOf_lt_length_iff.mpr hb) less
    simpa using at_
  constructor
  · exact ordered hi hj
  · intro before
    rcases Nat.lt_trichotomy (l.idxOf i) (l.idxOf j) with less | same | greater
    · exact less
    · obtain rfl := (List.idxOf_inj hi).mp same
      exact absurd before (asymm before)
    · exact absurd (ordered hj hi greater) (asymm before)

/-! ## Depth -/

/-- A chain of includes, of a given length, starts at the position. -/
inductive IncludeChain (defs : List Definition) : Nat → Nat → Prop
  | stop (i : Nat) : IncludeChain defs i 0
  | down {i j n : Nat} (includes : j ∈ includesAt defs i) (below : IncludeChain defs j n) :
      IncludeChain defs i (n + 1)

/-- Length of the longest chain of includes below a position. -/
noncomputable def depth (defs : List Definition) (i : Nat) : Nat := sSup {n | IncludeChain defs i n}

theorem Arranged.idxOf_lt (arranged : Arranged defs order) :
    ∀ i ∈ order, ∀ t ∈ includesAt defs i, order.idxOf t < order.idxOf i := by
  induction arranged with
  | nil => intro i member; cases member
  | @place before i d _ at_ includes ih =>
    intro k member t included
    by_cases old : k ∈ before
    · have earlier := ih k old t included
      have there : t ∈ before := by
        apply List.idxOf_lt_length_iff.mp
        exact Nat.lt_trans earlier (List.idxOf_lt_length_iff.mpr old)
      rwa [List.idxOf_append_of_mem there, List.idxOf_append_of_mem old]
    · obtain rfl : k = i := by simpa [old] using member
      have there := mem_of_mem_includesAt at_ includes t included
      have inside := List.idxOf_lt_length_iff.mpr there
      rw [List.idxOf_append_of_mem there, List.idxOf_append_of_notMem old]
      omega

/-- A chain below a resolved position is no longer than the order up to there. -/
theorem IncludeChain.length_le {n : Nat} (chain : IncludeChain defs i n)
    (member : i ∈ placed defs) : n ≤ (placed defs).idxOf i := by
  induction chain with
  | stop => exact Nat.zero_le _
  | down included _ ih =>
    have below := ih (includesAt_placed member _ included)
    have earlier := (arranged_placed defs).idxOf_lt _ member _ included
    omega

theorem depth_isGreatest (member : i ∈ placed defs) :
    IsGreatest {n | IncludeChain defs i n} (depth defs i) := by
  have bounded : BddAbove {n | IncludeChain defs i n} :=
    ⟨_, fun n chain => IncludeChain.length_le chain member⟩
  exact ⟨Nat.sSup_mem ⟨0, .stop i⟩ bounded, fun n chain => le_csSup bounded chain⟩

/-- What comes later has chains that are at least as long. -/
theorem IncludeChain.later {n : Nat} (chain : IncludeChain defs i n) (hi : i ∈ placed defs)
    (hj : j ∈ placed defs) (le : (placed defs).idxOf i ≤ (placed defs).idxOf j) :
    ∃ m, n ≤ m ∧ IncludeChain defs j m := by
  induction chain generalizing j with
  | stop => exact ⟨0, Nat.le_refl 0, .stop j⟩
  | @down i t n included _ ih =>
    have latest_le : latest defs (placed defs) i ≤ latest defs (placed defs) j := by
      rcases Nat.eq_or_lt_of_le le with same | less
      · rw [(List.idxOf_inj hi).mp same]
      · have before := (idxOf_lt_iff (placed_sorted defs) Precedes.asymm hi hj).mp less
        unfold Precedes at before
        omega
    have place := idxOf_le_latest (placed defs) included
    -- `j` includes something, because its latest include comes no earlier than `t`.
    have some : ∃ u, u ∈ includesAt defs j := by
      refine List.exists_mem_of_ne_nil _ fun empty => ?_
      have least : latest defs (placed defs) j = -1 := by rw [latest, empty]; rfl
      omega
    obtain ⟨u, member⟩ := some
    obtain ⟨u, member, at_⟩ := exists_latest (placed defs) member
    obtain ⟨m, longer, below⟩ := ih (includesAt_placed hi t included)
      (includesAt_placed hj u member) (by omega)
    exact ⟨m + 1, Nat.succ_le_succ longer, .down member below⟩

theorem depth_mono (hi : i ∈ placed defs) (hj : j ∈ placed defs)
    (le : (placed defs).idxOf i ≤ (placed defs).idxOf j) : depth defs i ≤ depth defs j := by
  obtain ⟨m, longer, chain⟩ := IncludeChain.later (depth_isGreatest hi).1 hi hj le
  exact Nat.le_trans longer ((depth_isGreatest hj).2 chain)

/-- Positions of all definitions in build order. -/
def arrangement (defs : List Definition) : List Nat := placed defs ++ leftOver defs (placed defs)

end Resolution

open Resolution

/-- **The build order of resolved lists** is told by when the last of their includes comes in it,
and then by declaration.  So chains of includes never get shorter along it. -/
theorem resolve_order_exact (defs : List Definition) :
    BuildOrder defs (resolve defs) (placed defs) (leftOver defs (placed defs)) ∧
    (∀ x ∈ placed defs, ∀ y ∈ placed defs,
      (arrangement defs).idxOf x < (arrangement defs).idxOf y ↔
        Precedes defs (arrangement defs) x y) ∧
    (∀ x ∈ placed defs, IsGreatest {n | IncludeChain defs x n} (depth defs x)) ∧
    (placed defs).Pairwise fun x y => depth defs x ≤ depth defs y := by
  refine ⟨⟨placed_leftOver_perm defs, fun i => mem_placed_iff, arranged_placed defs, ?_, ?_, rfl⟩,
    ?_, fun x => depth_isGreatest, ?_⟩
  · exact List.pairwise_lt_range.sublist List.filter_sublist
  · rw [List.filterMap_append]
    rfl
  · intro x hx y hy
    rw [arrangement, List.idxOf_append_of_mem hx, List.idxOf_append_of_mem hy,
      precedes_append (includesAt_placed hx) (includesAt_placed hy)]
    exact idxOf_lt_iff (placed_sorted defs) Precedes.asymm hx hy
  · refine (placed_sorted defs).imp_of_mem fun {x y} hx hy before => ?_
    have less := (idxOf_lt_iff (placed_sorted defs) Precedes.asymm hx hy).mpr before
    exact depth_mono hx hy (Nat.le_of_lt less)

/-- A diamond whose bottom is declared twice and included twice by one side, and a list that cannot
be resolved. -/
def braided : List Definition :=
  [(Definition.named "top").including "right" |>.including "left",
    (Definition.named "left").including "base",
    .named "base",
    (Definition.named "right").including "base" |>.including "base",
    (Definition.named "base").inRegistrar "TEST",
    (Definition.named "lost").including "ghost"]

/-- Both sides wait for the same position, so they come in declaration order. -/
theorem resolve_order_exact_braided :
    1 ∈ placed braided ∧ 3 ∈ placed braided ∧
      (arrangement braided).idxOf 1 < (arrangement braided).idxOf 3 ∧
      Precedes braided (arrangement braided) 1 3 ∧
      IsGreatest {n | IncludeChain braided 3 n} (depth braided 3) := by
  obtain ⟨-, places, deepest, -⟩ := resolve_order_exact braided
  have left : 1 ∈ placed braided := by decide
  have right : 3 ∈ placed braided := by decide
  have earlier : (arrangement braided).idxOf 1 < (arrangement braided).idxOf 3 := by decide
  exact ⟨left, right, earlier, (places 1 left 3 right).mp earlier, deepest 3 right⟩

end NetRegistry
