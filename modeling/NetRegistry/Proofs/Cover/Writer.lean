/-
# Proofs.Cover.Writer -- a cover writer hands its sink the minimal cover

The sink is known by what it has taken: `Takes sink all Taken failed` says that
it accepts the blocks `all` one after the other, `Taken past` holding of its state
once it has accepted `past`, or else fails in a state that satisfies `failed`.

**Main theorem** `cover_ends`: a writer fed with ranges and finished hands such a
sink the minimal cover of the ranges, and counts its runs and blocks.
-/
import NetRegistry.Cover.Writer
import NetRegistry.Proofs.Fallible

namespace NetRegistry

set_option autoImplicit false

namespace CoverWriter

open Fallible (Ends)

variable {f : Family} {σ ε : Type}

/-- The sink accepts the blocks one after the other, or fails. -/
def Takes (sink : Block f → Fallible σ ε Unit) (all : List (Block f))
    (Taken : List (Block f) → σ → Prop) (failed : σ → Prop) : Prop :=
  ∀ past b rest s, all = past ++ b :: rest → Taken past s →
    Ends (sink b) s (fun _ => Taken (past ++ [b])) failed

/-- A writer whose sink has accepted the blocks `past`, all of them counted. -/
def Wrote (Taken : List (Block f) → σ → Prop) (c : Coalescer f) (runs : Nat)
    (past : List (Block f)) (w : CoverWriter f × σ) : Prop :=
  w.1 = ⟨c, ⟨runs, past.length⟩⟩ ∧ Taken past w.2

variable {sink : Block f → Fallible σ ε Unit} {all past rest : List (Block f)}
  {Taken : List (Block f) → σ → Prop} {failed : σ → Prop} {c : Coalescer f} {n : Nat}
  {w : CoverWriter f × σ}

theorem writeBlock_ends (takes : Takes sink all Taken failed) {b : Block f}
    (split : all = past ++ b :: rest) (wrote : Wrote Taken c n past w) :
    Ends (writeBlock sink b) w (fun _ => Wrote Taken c n (past ++ [b])) fun w => failed w.2 := by
  obtain ⟨⟨c', counts⟩, s⟩ := w
  obtain ⟨same, taken⟩ := wrote
  cases same
  refine Ends.bind (Ends.onSecond ((takes past b rest s split taken).imp (fun _ t now => ?_)
    fun _ => id))
  refine Ends.modify ⟨?_, now⟩
  simp

theorem writeRun_ends (takes : Takes sink all Taken failed) {run : Range f}
    (split : all = past ++ run.blocks ++ rest) (wrote : Wrote Taken c n past w) :
    Ends (writeRun sink run) w (fun _ => Wrote Taken c (n + 1) (past ++ run.blocks))
      fun w => failed w.2 := by
  obtain ⟨⟨c', counts⟩, s⟩ := w
  obtain ⟨same, taken⟩ := wrote
  cases same
  refine Ends.bind (Ends.modify ?_)
  refine Ends.each (Wrote Taken c (n + 1)) ?_ past run.blocks rfl ⟨rfl, taken⟩
  intro before b later w inner wrote
  have outer : all = before ++ b :: (later ++ rest) := by
    rw [split, inner, List.append_assoc, List.cons_append]
  exact writeBlock_ends takes outer wrote

/-- The blocks of a run that may have been closed. -/
def closedBlocks (closed : Option (Range f)) : List (Block f) := closed.toList.flatMap Range.blocks

theorem writeClosed_ends (takes : Takes sink all Taken failed) {closed : Option (Range f)}
    (split : all = past ++ closedBlocks closed ++ rest) (wrote : Wrote Taken c n past w) :
    Ends (writeClosed sink closed) w
      (fun _ => Wrote Taken c (n + closed.toList.length) (past ++ closedBlocks closed))
      fun w => failed w.2 := by
  cases closed with
  | none =>
    refine Ends.pure ?_
    rw [closedBlocks, Option.toList_none, List.flatMap_nil, List.append_nil]
    exact wrote
  | some run =>
    have blocks : closedBlocks (some run) = run.blocks := by simp [closedBlocks]
    rw [blocks] at split ⊢
    exact writeRun_ends takes split wrote

theorem push_ends (takes : Takes sink all Taken failed) {r : Range f}
    (split : all = past ++ closedBlocks (c.push r).2 ++ rest) (wrote : Wrote Taken c n past w) :
    Ends (push sink r) w
      (fun _ => Wrote Taken (c.push r).1 (n + (c.push r).2.toList.length)
        (past ++ closedBlocks (c.push r).2))
      fun w => failed w.2 := by
  obtain ⟨⟨c', counts⟩, s⟩ := w
  obtain ⟨same, taken⟩ := wrote
  cases same
  refine Ends.bind (Ends.get ?_)
  refine Ends.bind (Ends.modify ?_)
  exact writeClosed_ends takes split ⟨rfl, taken⟩

theorem finish_ends (takes : Takes sink all Taken failed)
    (split : all = past ++ closedBlocks c.run) (wrote : Wrote Taken c n past w) :
    Ends (finish sink) w
      (fun counts w => counts = ⟨n + c.run.toList.length, all.length⟩ ∧ Taken all w.2)
      fun w => failed w.2 := by
  obtain ⟨⟨c', counts⟩, s⟩ := w
  obtain ⟨same, taken⟩ := wrote
  cases same
  refine Ends.bind (Ends.get ?_)
  refine Ends.bind (Ends.modify ?_)
  have whole : all = past ++ closedBlocks c.run ++ [] := by rw [split, List.append_nil]
  have emptied : Wrote Taken (.empty f) n past (⟨.empty f, ⟨n, past.length⟩⟩, s) := ⟨rfl, taken⟩
  refine Ends.bind ((writeClosed_ends takes whole emptied).imp (fun _ w wrote => ?_) fun _ => id)
  obtain ⟨⟨c', counts⟩, t⟩ := w
  obtain ⟨same, taken⟩ := wrote
  cases same
  refine Ends.bind (Ends.get (Ends.pure ?_))
  rw [split]
  exact ⟨rfl, taken⟩

/-- From a writer on its way: the runs still to come out of its coalescer are written. -/
theorem each_push_finish_ends (takes : Takes sink all Taken failed) {ranges : List (Range f)}
    (split : all = past ++ (c.runs ranges).flatMap Range.blocks) (wrote : Wrote Taken c n past w) :
    Ends (do Fallible.each (push sink) ranges; finish sink) w
      (fun counts w => counts = ⟨n + (c.runs ranges).length, all.length⟩ ∧ Taken all w.2)
      fun w => failed w.2 := by
  induction ranges generalizing c n past w with
  | nil => exact finish_ends takes split wrote
  | cons r later ih =>
    rw [Coalescer.runs, List.flatMap_append, ← List.append_assoc] at split
    rw [Coalescer.runs, List.length_append, ← Nat.add_assoc]
    refine Ends.bind (Ends.bind ((push_ends takes split wrote).imp (fun _ w wrote => ?_)
      fun _ => id))
    exact Ends.bind_iff.mp (ih split wrote)

/-- **A cover writer** fed with ranges and finished hands its sink the minimal cover. -/
theorem cover_ends {ranges : List (Range f)} {s : σ}
    (takes : Takes sink (minimalCover ranges) Taken failed) (start : Taken [] s) :
    Ends (do Fallible.each (push sink) ranges; finish sink) (empty f, s)
      (fun counts w => counts = ⟨(coalesce ranges).length, (minimalCover ranges).length⟩ ∧
        Taken (minimalCover ranges) w.2)
      fun w => failed w.2 := by
  have fresh : Wrote Taken (.empty f) 0 [] (empty f, s) := ⟨rfl, start⟩
  have split : minimalCover ranges =
      [] ++ ((Coalescer.empty f).runs ranges).flatMap Range.blocks := rfl
  have ends := each_push_finish_ends takes split fresh
  rw [Nat.zero_add] at ends
  exact ends

end CoverWriter

end NetRegistry
