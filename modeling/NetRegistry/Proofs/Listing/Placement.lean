/-
# Proofs.Listing.Placement -- every definition has its place in the build order

The state of the placing satisfies `Resolution.Placing`: what is pending at a
position and what of its includes is placed make up all of its includes, the
positions at zero are those that are placed or ready, and no position is twice
among these.  `Releasable` says when placing a position lowers no count below
zero, and its lemmas what comes out; `Placing.step` makes one step of them, and
`placing_steps` a run of any length.

**Main theorem** `resolve_order_perm`: the build order holds every definition
exactly once.
-/
import NetRegistry.Listing.Resolution

namespace NetRegistry

set_option autoImplicit false

namespace Resolution

variable {defs : List Definition}

/-! ## Releasing -/

/-- Lowering one count. -/
theorem getD_lowered {pending : List Nat} {j : Nat} (within : j < pending.length) (k : Nat) :
    (pending.set j (pending.getD j 0 - 1)).getD k 0 =
      pending.getD k 0 - if j = k then 1 else 0 := by
  rw [List.getD_eq_getElem?_getD, List.getElem?_set]
  by_cases same : j = k
  · subst same
    simp [within]
  · simp [same]

theorem length_release (js pending : List Nat) :
    (release js pending).2.length = pending.length := by
  induction js generalizing pending with
  | nil => rfl
  | cons j rest ih => exact (ih _).trans List.length_set

/-- Counts that are lowered often enough to be, and positions that are there. -/
structure Releasable (js pending : List Nat) : Prop where
  within : ∀ j ∈ js, j < pending.length
  enough : ∀ j, js.count j ≤ pending.getD j 0

namespace Releasable

variable {j : Nat} {js rest pending : List Nat}

theorem count_cons (j k : Nat) (rest : List Nat) :
    (j :: rest).count k = rest.count k + if j = k then 1 else 0 := by
  rw [List.count_cons]
  simp

theorem lowered (able : Releasable (j :: rest) pending) (k : Nat) :
    (pending.set j (pending.getD j 0 - 1)).getD k 0 =
      pending.getD k 0 - if j = k then 1 else 0 :=
  getD_lowered (able.within j List.mem_cons_self) k

theorem tail (able : Releasable (j :: rest) pending) :
    Releasable rest (pending.set j (pending.getD j 0 - 1)) := by
  constructor
  · intro k later
    rw [List.length_set]
    exact able.within k (List.mem_cons_of_mem _ later)
  · intro k
    have enough := able.enough k
    rw [count_cons] at enough
    rw [able.lowered]
    omega

theorem counts (able : Releasable js pending) (k : Nat) :
    (release js pending).2.getD k 0 + js.count k = pending.getD k 0 := by
  induction js generalizing pending with
  | nil => rfl
  | cons j rest ih =>
    have after := ih able.tail
    have enough := able.enough k
    rw [able.lowered] at after
    rw [count_cons] at enough ⊢
    show (release rest _).2.getD k 0 + _ = _
    omega

/-- A position comes out when its lowerings use its count up. -/
theorem mem_iff (able : Releasable js pending) (k : Nat) :
    k ∈ (release js pending).1 ↔ k ∈ js ∧ pending.getD k 0 = js.count k := by
  induction js generalizing pending with
  | nil => simp [release]
  | cons j rest ih =>
    have later := ih able.tail
    have enough := able.enough k
    rw [able.lowered] at later
    rw [count_cons] at enough
    rw [release, count_cons]
    dsimp only
    by_cases same : j = k
    · subst same
      simp only [if_true] at later enough ⊢
      split
      · simp only [List.mem_cons_self, true_and, true_iff]
        omega
      · rw [later]
        simp only [List.mem_cons_self, true_and]
        constructor
        · rintro ⟨-, used⟩
          omega
        · intro used
          exact ⟨List.count_pos_iff.mp (by omega), by omega⟩
    · have other : ¬ k = j := fun h => same h.symm
      simp only [if_neg same, Nat.sub_zero, Nat.add_zero, List.mem_cons, other, false_or] at later ⊢
      split
      · simp only [List.mem_cons, other, false_or]
        exact later
      · exact later

theorem nodup (able : Releasable js pending) : (release js pending).1.Nodup := by
  induction js generalizing pending with
  | nil => exact List.nodup_nil
  | cons j rest ih =>
    rw [release]
    dsimp only
    split
    · rename_i zero
      refine List.nodup_cons.mpr ⟨fun again => ?_, ih able.tail⟩
      -- The count of `j` is used up, so it cannot be lowered again.
      have positive := List.count_pos_iff.mpr ((able.tail.mem_iff j).mp again).1
      have enough := able.tail.enough j
      rw [able.lowered, if_pos rfl] at enough
      omega
    · exact ih able.tail

end Releasable

/-! ## Dependents -/

theorem count_dependents (edges : Edges) (i j start : Nat) :
    ((edges.zipIdx start).flatMap fun (targets, k) => List.replicate (targets.count i) k).count j =
      if start ≤ j then (edges.getD (j - start) []).count i else 0 := by
  induction edges generalizing start with
  | nil => simp
  | cons targets rest ih =>
    rw [List.zipIdx_cons, List.flatMap_cons, List.count_append, ih, List.count_replicate]
    rcases Nat.lt_trichotomy start j with before | same | after
    · obtain ⟨d, rfl⟩ := Nat.exists_eq_add_of_lt before
      have shift : start + d + 1 - start = d + 1 := by omega
      have shift' : start + d + 1 - (start + 1) = d := by omega
      have apart : ¬ start = start + d + 1 := by omega
      simp [shift, shift', apart]
      omega
    · subst same
      have high : ¬ start + 1 ≤ start := by omega
      simp [high]
    · have apart : ¬ start = j := by omega
      have low : ¬ start ≤ j := by omega
      have low' : ¬ start + 1 ≤ j := by omega
      simp [apart, low, low']

theorem count_dependents_edges {i j : Nat} {d : Definition} (at_ : defs[j]? = some d) :
    (dependents (edges defs) i).count j = (targets defs d).count i := by
  have count := count_dependents (edges defs) i j 0
  rw [if_pos (Nat.zero_le j), Nat.sub_zero] at count
  refine count.trans ?_
  rw [List.getD_eq_getElem?_getD, edges, List.getElem?_map, at_]
  rfl

theorem lt_of_mem_dependents {i j : Nat} (member : j ∈ dependents (edges defs) i) :
    j < defs.length := by
  obtain ⟨⟨targets, k⟩, inside, repeated⟩ := List.mem_flatMap.mp member
  obtain rfl := (List.mem_replicate.mp repeated).2
  have bound := List.snd_lt_of_mem_zipIdx inside
  simpa [edges] using bound

/-! ## Placing -/

/-- What holds of the placing at any time. -/
structure Placing (defs : List Definition) (s : Progress) : Prop where
  length : s.pending.length = defs.length
  /-- Includes are either pending or placed. -/
  pending : ∀ j d, defs[j]? = some d →
    s.pending.getD j 0 + (targets defs d).countP (s.placed.contains ·) = d.includes.length
  reached : ∀ j, j ∈ s.placed ++ s.ready ↔ j < defs.length ∧ s.pending.getD j 0 = 0
  nodup : (s.placed ++ s.ready).Nodup

theorem placing_start (defs : List Definition) : Placing defs (start defs) := by
  refine ⟨List.length_map _, ?_, ?_, List.nodup_range.sublist List.filter_sublist⟩
  · intro j d at_
    simp [start, initialPending, at_]
  · intro j
    simp [start]

theorem countP_placed {placed ts : List Nat} {i : Nat} (fresh : i ∉ placed) :
    ts.countP ((placed ++ [i]).contains ·) = ts.countP (placed.contains ·) + ts.count i := by
  induction ts with
  | nil => rfl
  | cons t rest ih =>
    rw [List.countP_cons, List.countP_cons, List.count_cons, ih]
    by_cases same : t = i
    · subst same
      simp [fresh]
      omega
    · simp [same]
      omega

namespace Placing

variable {s : Progress} {i : Nat} {ready : List Nat}

theorem fresh (placing : Placing defs s) (first : s.ready = i :: ready) : i ∉ s.placed := by
  have nodup := placing.nodup
  rw [first] at nodup
  intro member
  exact (List.nodup_append.mp nodup).2.2 i member i List.mem_cons_self rfl

/-- What the first ready position releases is still pending. -/
theorem releasable (placing : Placing defs s) (first : s.ready = i :: ready) :
    Releasable (dependents (edges defs) i) s.pending := by
  refine ⟨fun j member => placing.length ▸ lt_of_mem_dependents member, fun j => ?_⟩
  by_cases inside : j < defs.length
  · have at_ := List.getElem?_eq_getElem inside
    have now := placing.pending j _ at_
    have bound := List.countP_le_length (p := ((s.placed ++ [i]).contains ·))
      (l := targets defs defs[j])
    have short : (targets defs defs[j]).length ≤ defs[j].includes.length :=
      List.length_filterMap_le _ _
    rw [countP_placed (placing.fresh first)] at bound
    rw [count_dependents_edges at_]
    omega
  · rw [List.count_eq_zero.mpr fun member => inside (lt_of_mem_dependents member)]
    exact Nat.zero_le _

/-- Placing a position keeps the counts right. -/
theorem step (placing : Placing defs s) : Placing defs (step (edges defs) s) := by
  unfold Resolution.step
  split
  · exact placing
  · rename_i i ready first
    have able := placing.releasable first
    refine ⟨(length_release _ _).trans placing.length, ?_, ?_, ?_⟩
    · intro j d at_
      have now := placing.pending j d at_
      have after := able.counts j
      rw [count_dependents_edges at_] at after
      dsimp only
      rw [countP_placed (placing.fresh first)]
      omega
    · intro j
      have now := placing.reached j
      have after := able.counts j
      rw [first] at now
      simp only [List.mem_append, List.mem_cons, List.not_mem_nil, or_false] at now ⊢
      rw [able.mem_iff]
      by_cases lowered : j ∈ dependents (edges defs) i
      · have inside := lt_of_mem_dependents lowered
        have positive := List.count_pos_iff.mpr lowered
        have waiting : ¬ s.pending.getD j 0 = 0 := by omega
        simp only [waiting, and_false, iff_false, not_or] at now
        simp only [now, lowered, inside, true_and, false_or]
        omega
      · have same : (dependents (edges defs) i).count j = 0 := List.count_eq_zero.mpr lowered
        rw [same, Nat.add_zero] at after
        rw [after, ← now]
        simp only [lowered, false_and, or_false]
        exact or_assoc
    · -- What is released was pending, so it was neither placed nor ready.
      have apart : ∀ j ∈ s.placed ++ s.ready,
          ∀ k ∈ (release (dependents (edges defs) i) s.pending).1, j ≠ k := by
        rintro j before _ out rfl
        obtain ⟨lowered, all⟩ := (able.mem_iff j).mp out
        have zero := ((placing.reached j).mp before).2
        have positive := List.count_pos_iff.mpr lowered
        omega
      have nodup := List.nodup_append.mpr ⟨placing.nodup, able.nodup, apart⟩
      rw [first] at nodup
      simpa using nodup

end Placing

theorem placing_steps (n : Nat) {s : Progress} (placing : Placing defs s) :
    Placing defs (steps (edges defs) n s) := by
  induction n generalizing s with
  | zero => exact placing
  | succ n ih => exact ih placing.step

theorem placed_nodup (defs : List Definition) : (placed defs).Nodup :=
  (List.nodup_append.mp (placing_steps defs.length (placing_start defs)).nodup).1

theorem lt_of_mem_placed {j : Nat} (member : j ∈ placed defs) : j < defs.length :=
  (((placing_steps defs.length (placing_start defs)).reached j).mp
    (List.mem_append_left _ member)).1

end Resolution

open Resolution

theorem filterMap_getElem?_range {α : Type} (l : List α) :
    (List.range l.length).filterMap (l[·]?) = l := by
  induction l with
  | nil => rfl
  | cons a rest ih =>
    have first : (a :: rest)[0]? = some a := rfl
    rw [List.length_cons, List.range_succ_eq_map, List.filterMap_cons_some first,
      List.filterMap_map]
    exact congrArg (a :: ·) ih

/-- Every position is either placed or left over, once. -/
theorem placed_leftOver_perm (defs : List Definition) :
    (placed defs ++ leftOver defs (placed defs)).Perm (List.range defs.length) := by
  refine (List.perm_ext_iff_of_nodup ?_ List.nodup_range).mpr fun j => ?_
  · refine List.nodup_append.mpr
      ⟨placed_nodup defs, List.nodup_range.sublist List.filter_sublist, ?_⟩
    rintro j before _ after rfl
    have absent := (List.mem_filter.mp after).2
    simp [before] at absent
  · rw [List.mem_append, leftOver, List.mem_filter, List.mem_range]
    constructor
    · rintro (before | after)
      · exact lt_of_mem_placed before
      · exact after.1
    · intro inside
      by_cases before : j ∈ placed defs
      · exact Or.inl before
      · exact Or.inr ⟨inside, by simp [before]⟩

/-- **The build order** holds every definition exactly once. -/
theorem resolve_order_perm (defs : List Definition) : (resolve defs).order.Perm defs := by
  have order := (placed_leftOver_perm defs).filterMap (defs[·]?)
  rw [List.filterMap_append, filterMap_getElem?_range] at order
  exact order

end NetRegistry
