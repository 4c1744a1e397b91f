/-
# Proofs.Listing.BuildOrder -- lists come after the lists that they include

A name refers to the last definition that has it (`Definition.RefersTo`).  A
definition is *resolvable* when each of its includes refers to a resolvable one;
`Resolvable` is the least such set of positions, so a definition that leads to a
cycle or to an unknown name is outside.

* `Arranged.step`: placing a ready position keeps every placed position behind
  the ones that it includes.
* `ready_ended`: after one step for each definition no position is ready.
* `mem_placed_iff`: the positions placed by then are the resolvable ones.

**Main theorem** `resolve_buildOrder`: the placing never lowers a count of zero,
comes to an end, and the build order is an arrangement of the resolvable
definitions followed by the others in declaration order.
-/
import NetRegistry.Proofs.Listing.Placement

namespace NetRegistry

set_option autoImplicit false

/-! ## What a name refers to -/

/-- The name refers to the definition at the position: the last one that has it. -/
structure Definition.RefersTo (defs : List Definition) (name : String) (i : Nat) : Prop where
  named : ∃ d, defs[i]? = some d ∧ d.name = name
  last : ∀ j d, i < j → defs[j]? = some d → d.name ≠ name

namespace Resolution

variable {defs : List Definition} {name : String}

theorem lastIndex?_eq_some_iff {i : Nat} :
    Definition.lastIndex? defs name = some i ↔ Definition.RefersTo defs name i := by
  rw [Definition.lastIndex?, Option.map_eq_some_iff]
  constructor
  · rintro ⟨k, found, rfl⟩
    obtain ⟨within, named, first⟩ := List.findIdx?_eq_some_iff_getElem.mp found
    rw [List.length_reverse] at within
    rw [List.getElem_reverse, beq_iff_eq] at named
    refine ⟨⟨_, List.getElem?_eq_getElem (by omega), named⟩, fun j d after at_ same => ?_⟩
    -- A later definition of the name would have been met first from the end.
    obtain ⟨inside, rfl⟩ := List.getElem?_eq_some_iff.mp at_
    have earlier := first (defs.length - 1 - j) (by omega)
    have back : defs.length - 1 - (defs.length - 1 - j) = j := by omega
    simp [List.getElem_reverse, back, same] at earlier
  · rintro ⟨⟨d, at_, named⟩, last⟩
    obtain ⟨inside, rfl⟩ := List.getElem?_eq_some_iff.mp at_
    refine ⟨defs.length - 1 - i, ?_, by omega⟩
    have back : defs.length - 1 - (defs.length - 1 - i) = i := by omega
    refine List.findIdx?_eq_some_iff_getElem.mpr ⟨by rw [List.length_reverse]; omega, ?_, ?_⟩
    · simp [List.getElem_reverse, back, named]
    · intro k before
      have later := last (defs.length - 1 - k) _ (by omega) (List.getElem?_eq_getElem (by omega))
      simpa [List.getElem_reverse] using later

/-! ## Resolvable definitions -/

/-- The least set of positions all of whose includes refer to positions of the set. -/
inductive Resolvable (defs : List Definition) : Nat → Prop
  | intro {i : Nat} {d : Definition} (at_ : defs[i]? = some d)
      (declared : ∀ name ∈ d.includes, ∃ j, Definition.RefersTo defs name j)
      (resolvable : ∀ name ∈ d.includes, ∀ j, Definition.RefersTo defs name j →
        Resolvable defs j) : Resolvable defs i

/-- Positions in an order in which each comes after those that it includes. -/
inductive Arranged (defs : List Definition) : List Nat → Prop
  | nil : Arranged defs []
  | place {before : List Nat} {i : Nat} {d : Definition} (arranged : Arranged defs before)
      (at_ : defs[i]? = some d)
      (includes : ∀ name ∈ d.includes, ∃ j ∈ before, Definition.RefersTo defs name j) :
      Arranged defs (before ++ [i])

theorem RefersTo.unique {i j : Nat} (first : Definition.RefersTo defs name i)
    (second : Definition.RefersTo defs name j) : i = j := by
  have same := (lastIndex?_eq_some_iff.mpr first).symm.trans (lastIndex?_eq_some_iff.mpr second)
  exact Option.some.inj same

theorem Arranged.resolvable {placed : List Nat} (arranged : Arranged defs placed) :
    ∀ i ∈ placed, Resolvable defs i := by
  induction arranged with
  | nil => intro i member; cases member
  | @place before i d _ at_ includes ih =>
    intro k member
    rcases List.mem_append.mp member with old | new
    · exact ih k old
    · obtain rfl := List.mem_singleton.mp new
      refine .intro at_ (fun name inside => ?_) fun name inside j refers => ?_
      · obtain ⟨j, -, refers⟩ := includes name inside
        exact ⟨j, refers⟩
      · obtain ⟨j', placed, refers'⟩ := includes name inside
        exact RefersTo.unique refers' refers ▸ ih j' placed

/-! ## Counts are only lowered where they are positive -/

/-- Each lowering of the counts, one after the other, meets a positive count. -/
def LowersPositive : List Nat → List Nat → Prop
  | [], _ => True
  | j :: rest, pending =>
      0 < pending.getD j 0 ∧ LowersPositive rest (pending.set j (pending.getD j 0 - 1))

theorem Releasable.lowersPositive {js pending : List Nat} (able : Releasable js pending) :
    LowersPositive js pending := by
  induction js generalizing pending with
  | nil => trivial
  | cons j rest ih =>
    have enough := able.enough j
    rw [count_cons, if_pos rfl] at enough
    exact ⟨by omega, ih able.tail⟩

/-! ## The placing comes to an end -/

theorem step_of_ready_nil {edges : Edges} {s : Progress} (done : s.ready = []) :
    step edges s = s := by
  rw [step, done]

theorem steps_of_ready_nil {edges : Edges} (n : Nat) {s : Progress} (done : s.ready = []) :
    steps edges n s = s := by
  induction n with
  | zero => rfl
  | succ n ih => rw [steps, step_of_ready_nil done, ih]

/-- As long as a position is ready, every step has placed one. -/
theorem length_placed_steps {edges : Edges} (n : Nat) {s : Progress}
    (busy : (steps edges n s).ready ≠ []) :
    (steps edges n s).placed.length = s.placed.length + n := by
  induction n generalizing s with
  | zero => rfl
  | succ n ih =>
    rw [steps] at busy ⊢
    cases first : s.ready with
    | nil =>
      rw [step_of_ready_nil first, steps_of_ready_nil n first] at busy
      exact absurd first busy
    | cons i ready =>
      have one : (step edges s).placed.length = s.placed.length + 1 := by
        rw [step, first]
        exact List.length_append
      rw [ih busy, one]
      omega

/-- The state in which the placing ends. -/
def ended (defs : List Definition) : Progress := steps (edges defs) defs.length (start defs)

theorem placing_ended (defs : List Definition) : Placing defs (ended defs) :=
  placing_steps defs.length (placing_start defs)

/-- One step for each definition is enough. -/
theorem ready_ended (defs : List Definition) : (ended defs).ready = [] := by
  refine Decidable.byContradiction fun busy => ?_
  have placing := placing_ended defs
  have all : (ended defs).placed.length = 0 + defs.length := length_placed_steps defs.length busy
  have inside : (ended defs).placed ++ (ended defs).ready ⊆ List.range defs.length :=
    fun j member => List.mem_range.mpr ((placing.reached j).mp member).1
  have bound := placing.nodup.length_le_of_subset inside
  have some_ready := List.length_pos_iff.mpr busy
  rw [List.length_append, List.length_range] at bound
  omega

/-! ## What is placed -/

/-- A ready position has all of its includes placed. -/
theorem Placing.includes_placed {s : Progress} (placing : Placing defs s) {i : Nat}
    {d : Definition} (at_ : defs[i]? = some d) (zero : s.pending.getD i 0 = 0) :
    ∀ name ∈ d.includes, ∃ j ∈ s.placed, Definition.RefersTo defs name j := by
  have counts := placing.pending i d at_
  rw [zero, Nat.zero_add] at counts
  have atMost : (targets defs d).countP (s.placed.contains ·) ≤ (targets defs d).length :=
    List.countP_le_length
  have short : (targets defs d).length ≤ d.includes.length := List.length_filterMap_le _ _
  -- No include is lost to an unknown name, and none of the targets is still to be placed.
  have whole : (targets defs d).length = d.includes.length := by omega
  have placed := List.countP_eq_length.mp (counts.trans whole.symm)
  intro name inside
  obtain ⟨j, found⟩ := Option.isSome_iff_exists.mp
    (List.filterMap_length_eq_length.mp whole name inside)
  refine ⟨j, ?_, lastIndex?_eq_some_iff.mp found⟩
  simpa using placed j (List.mem_filterMap.mpr ⟨name, inside, found⟩)

theorem Arranged.step {s : Progress} (placing : Placing defs s)
    (arranged : Arranged defs s.placed) : Arranged defs (step (edges defs) s).placed := by
  unfold Resolution.step
  split
  · exact arranged
  · rename_i i ready first
    have member : i ∈ s.placed ++ s.ready := by simp [first]
    obtain ⟨inside, zero⟩ := (placing.reached i).mp member
    have at_ := List.getElem?_eq_getElem inside
    exact arranged.place at_ (placing.includes_placed at_ zero)

theorem arranged_steps (n : Nat) {s : Progress} (placing : Placing defs s)
    (arranged : Arranged defs s.placed) : Arranged defs (steps (edges defs) n s).placed := by
  induction n generalizing s with
  | zero => exact arranged
  | succ n ih => exact ih placing.step (arranged.step placing)

theorem arranged_placed (defs : List Definition) : Arranged defs (placed defs) :=
  arranged_steps defs.length (placing_start defs) .nil

theorem mem_placed_of_resolvable {i : Nat} (resolvable : Resolvable defs i) :
    i ∈ placed defs := by
  induction resolvable with
  | @intro i d at_ declared _ ih =>
    have placing := placing_ended defs
    have counts := placing.pending i d at_
    have whole : (targets defs d).length = d.includes.length := by
      refine List.filterMap_length_eq_length.mpr fun name inside => ?_
      obtain ⟨j, refers⟩ := declared name inside
      rw [lastIndex?_eq_some_iff.mpr refers]
      rfl
    have placed : (targets defs d).countP ((ended defs).placed.contains ·) =
        (targets defs d).length := by
      refine List.countP_eq_length.mpr fun j member => ?_
      obtain ⟨name, inside, found⟩ := List.mem_filterMap.mp member
      exact List.contains_iff_mem.mpr (ih name inside j (lastIndex?_eq_some_iff.mp found))
    have inside : i < defs.length := (List.getElem?_eq_some_iff.mp at_).1
    have reached := (placing.reached i).mpr ⟨inside, by omega⟩
    rwa [ready_ended, List.append_nil] at reached

theorem mem_placed_iff {i : Nat} : i ∈ placed defs ↔ Resolvable defs i :=
  ⟨fun member => (arranged_placed defs).resolvable i member, mem_placed_of_resolvable⟩

/-- No step of the placing lowers a count of zero. -/
theorem lowersPositive_steps (n : Nat) {i : Nat} {ready : List Nat}
    (first : (steps (edges defs) n (start defs)).ready = i :: ready) :
    LowersPositive (dependents (edges defs) i) (steps (edges defs) n (start defs)).pending :=
  ((placing_steps n (placing_start defs)).releasable first).lowersPositive

/-- A build order: the resolvable definitions, each after those that it includes, then the others
as they were declared. -/
structure BuildOrder (defs : List Definition) (r : Resolution) (placed others : List Nat) :
    Prop where
  /-- Every definition has its place, once. -/
  once : (placed ++ others).Perm (List.range defs.length)
  resolvable : ∀ i, i ∈ placed ↔ Resolvable defs i
  arranged : Arranged defs placed
  declared : others.Pairwise (· < ·)
  order : r.order = (placed ++ others).filterMap (defs[·]?)
  unresolved : r.unresolved = (others.filterMap (defs[·]?)).map (·.name)

end Resolution

open Resolution

/-- **Ordering definitions** never lowers a count of zero, has nothing left to place after one step
for each definition, and gives a build order. -/
theorem resolve_buildOrder (defs : List Definition) :
    (∀ n i ready, (steps (edges defs) n (start defs)).ready = i :: ready →
      LowersPositive (dependents (edges defs) i) (steps (edges defs) n (start defs)).pending) ∧
    (steps (edges defs) defs.length (start defs)).ready = [] ∧
    ∃ placed others, BuildOrder defs (resolve defs) placed others := by
  refine ⟨fun n _ _ => lowersPositive_steps n, ready_ended defs, placed defs,
    leftOver defs (placed defs), placed_leftOver_perm defs, fun i => mem_placed_iff,
    arranged_placed defs, ?_, ?_, rfl⟩
  · exact List.pairwise_lt_range.sublist List.filter_sublist
  · rw [List.filterMap_append]
    rfl

end NetRegistry
