/-
# Proofs.Cover.Refusal -- a cover writer whose sink refuses blocks

A sink may refuse any of its calls.  What a writer makes of that is said here
without it: the runs of the ranges are offered to the sink one after the other
(`offerAll`), and of every run the sink takes the blocks before the first that it
refuses (`offer`).  The rest of that run is never offered; the next run is.

* `run_writeClosed`: closing a run offers its blocks, counts it and the blocks
  taken, and fails exactly when a block was refused.
* `offers_rest`: whatever was refused before, the ranges that are left close runs
  that are offered from the state in which the sink was left.

**Main theorem** `writer_offers`: feeding ranges to a writer and finishing it is
offering their runs, and each refusal is the answer of the one step that closed
the run.
-/
import Mathlib.Data.List.Forall2
import Mathlib.Data.List.ReduceOption
import NetRegistry.Cover.Writer
import NetRegistry.Proofs.Cover.Minimal

namespace NetRegistry

set_option autoImplicit false

variable {f : Family} {σ ε : Type}

/-! ## Offering runs -/

/-- What became of blocks that were offered: those that the sink took, and the error with which it
refused the next one, if it did. -/
structure Offered (f : Family) (ε : Type) where
  taken : List (Block f)
  refusal : Option ε

namespace Offered

/-- A refusal is an error. -/
def answer (o : Offered f ε) : Except ε Unit :=
  match o.refusal with
  | none => .ok ()
  | some e => .error e

/-- All blocks were taken, or those before one that was refused. -/
structure Of (blocks : List (Block f)) (o : Offered f ε) : Prop where
  whole : o.refusal = none → o.taken = blocks
  cut : ∀ e, o.refusal = some e → ∃ b rest, blocks = o.taken ++ b :: rest

theorem map_answer {α : Type} (o : Offered f ε) (a : α) :
    ((o.answer.map fun _ => a).map fun _ => ()) = o.answer := by
  obtain ⟨got, _ | e⟩ := o <;> rfl

theorem eq_of_map_answer {α : Type} {o : Offered f ε} {a b : α}
    (ok : (o.answer.map fun _ => a) = .ok b) : b = a := by
  obtain ⟨got, _ | e⟩ := o
  · exact (Except.ok.inj ok).symm
  · cases ok

end Offered

/-- Offer blocks to a sink, up to the first that it refuses. -/
def offer (sink : Block f → Fallible σ ε Unit) : List (Block f) → σ → Offered f ε × σ
  | [], s => (⟨[], none⟩, s)
  | b :: rest, s =>
      match (sink b).run s with
      | (.error e, s) => (⟨[], some e⟩, s)
      | (.ok (), s) =>
          let (later, s) := offer sink rest s
          (⟨b :: later.taken, later.refusal⟩, s)

/-- Offer the blocks of each run, whatever became of the runs before. -/
def offerAll (sink : Block f → Fallible σ ε Unit) :
    List (Range f) → σ → List (Offered f ε) × σ
  | [], s => ([], s)
  | run :: rest, s =>
      let (o, s) := offer sink run.blocks s
      let (later, s) := offerAll sink rest s
      (o :: later, s)

theorem offer_of (sink : Block f → Fallible σ ε Unit) (blocks : List (Block f)) (s : σ) :
    Offered.Of blocks (offer sink blocks s).1 := by
  induction blocks generalizing s with
  | nil => exact ⟨fun _ => rfl, fun e refused => by cases refused⟩
  | cons b rest ih =>
    rw [offer]
    split
    · exact ⟨fun calm => absurd calm (Option.some_ne_none _), fun e _ => ⟨b, rest, rfl⟩⟩
    · rename_i t _
      obtain ⟨whole, cut⟩ := ih t
      refine ⟨fun calm => congrArg (b :: ·) (whole calm), fun e refused => ?_⟩
      obtain ⟨c, after, split⟩ := cut e refused
      exact ⟨c, after, congrArg (b :: ·) split⟩

theorem offerAll_of (sink : Block f → Fallible σ ε Unit) (runs : List (Range f)) (s : σ) :
    List.Forall₂ (fun run o => Offered.Of (Range.blocks run) o) runs (offerAll sink runs s).1 := by
  induction runs generalizing s with
  | nil => exact .nil
  | cons run rest ih => exact .cons (offer_of sink run.blocks s) (ih _)

/-- Without refusals every block of every run is taken. -/
theorem taken_of_no_refusal {runs : List (Range f)} {offered : List (Offered f ε)}
    (parts : List.Forall₂ (fun run o => Offered.Of (Range.blocks run) o) runs offered)
    (calm : ∀ o ∈ offered, o.refusal = none) :
    offered.flatMap (·.taken) = runs.flatMap Range.blocks := by
  induction parts with
  | nil => rfl
  | cons of _ ih =>
    rw [List.flatMap_cons, List.flatMap_cons, of.whole (calm _ List.mem_cons_self),
      ih fun o member => calm o (List.mem_cons_of_mem _ member)]

/-! ## The steps that close runs -/

namespace Coalescer

/-- For each range the run that it closes, if any, and at the end the run in progress. -/
def closings (c : Coalescer f) : List (Range f) → List (Option (Range f))
  | [] => [c.run]
  | r :: rest => (c.push r).2 :: (c.push r).1.closings rest

theorem reduceOption_closings (c : Coalescer f) (ranges : List (Range f)) :
    (c.closings ranges).reduceOption = c.runs ranges := by
  induction ranges generalizing c with
  | nil => cases h : c.run <;> simp [closings, runs, finish, h]
  | cons r rest ih =>
    rw [closings, runs, ← ih]
    cases (c.push r).2 <;> simp

end Coalescer

/-- The answers of steps: a step that closed no run succeeds, one that closed a run tells what became
of it. -/
inductive Answers : List (Option (Range f)) → List (Offered f ε) → List (Except ε Unit) → Prop
  | nil : Answers [] [] []
  | nothing {closings : List (Option (Range f))} {offered : List (Offered f ε)}
      {answers : List (Except ε Unit)} (later : Answers closings offered answers) :
      Answers (none :: closings) offered (.ok () :: answers)
  | closed {run : Range f} {o : Offered f ε} {closings : List (Option (Range f))}
      {offered : List (Offered f ε)} {answers : List (Except ε Unit)}
      (later : Answers closings offered answers) :
      Answers (some run :: closings) (o :: offered) (o.answer :: answers)

namespace CoverWriter

/-- The sink, with the blocks that it has taken. -/
def recorded (sink : Block f → Fallible σ ε Unit) (b : Block f) :
    Fallible (List (Block f) × σ) ε Unit := do
  Fallible.onSecond (sink b)
  Fallible.modify fun (taken, s) => (taken ++ [b], s)

/-- Feed each range, whatever became of the ones before it; the answers come out. -/
def pushAll (sink : Block f → Fallible σ ε Unit) :
    List (Range f) → CoverWriter f × σ → List (Except ε Unit) × (CoverWriter f × σ)
  | [], w => ([], w)
  | r :: rest, w =>
      let (answer, w) := (push sink r).run w
      let (later, w) := pushAll sink rest w
      (answer :: later, w)

/-- What came of feeding ranges to a new writer and finishing it. -/
structure Fed (f : Family) (σ ε : Type) where
  pushes : List (Except ε Unit)
  finish : Except ε CoverCounts
  taken : List (Block f)
  sink : σ

/-- The writer after some ranges, its sink with what it has taken, and the answers. -/
def after (sink : Block f → Fallible σ ε Unit) (ranges : List (Range f)) (s : σ) :
    List (Except ε Unit) × (CoverWriter f × (List (Block f) × σ)) :=
  pushAll (recorded sink) ranges (empty f, [], s)

def feed (sink : Block f → Fallible σ ε Unit) (ranges : List (Range f)) (s : σ) : Fed f σ ε :=
  let (pushes, w) := after sink ranges s
  let (finish, _, taken, s) := (finish (recorded sink)).run w
  ⟨pushes, finish, taken, s⟩

variable {sink : Block f → Fallible σ ε Unit} {c : Coalescer f} {n : CoverCounts}
  {taken : List (Block f)} {s : σ}

/-! ## One step -/

theorem run_recorded (b : Block f) :
    (recorded sink b).run (taken, s) =
      match (sink b).run s with
      | (.ok (), t) => (.ok (), (taken ++ [b], t))
      | (.error e, t) => (.error e, (taken, t)) := by
  rw [recorded, Fallible.run_bind, Fallible.run_onSecond]
  cases (sink b).run s with
  | mk r t => cases r <;> rfl

theorem run_writeBlock (b : Block f) :
    (writeBlock (recorded sink) b).run (⟨c, n⟩, taken, s) =
      match (sink b).run s with
      | (.ok (), t) => (.ok (), (⟨c, { n with blocks := n.blocks + 1 }⟩, taken ++ [b], t))
      | (.error e, t) => (.error e, (⟨c, n⟩, taken, t)) := by
  rw [writeBlock, Fallible.run_bind, Fallible.run_onSecond, run_recorded]
  cases (sink b).run s with
  | mk r t => cases r <;> rfl

/-- Writing blocks offers them, and counts those that are taken. -/
theorem run_writeBlocks (blocks : List (Block f)) :
    (Fallible.each (writeBlock (recorded sink)) blocks).run (⟨c, n⟩, taken, s) =
      let (o, t) := offer sink blocks s
      (o.answer, (⟨c, { n with blocks := n.blocks + o.taken.length }⟩, taken ++ o.taken, t)) := by
  induction blocks generalizing n taken s with
  | nil => simp [Fallible.each, offer, Offered.answer]
  | cons b rest ih =>
    rw [Fallible.each, Fallible.run_bind, run_writeBlock, offer]
    cases (sink b).run s with
    | mk r t =>
      cases r with
      | error e => simp [Offered.answer]
      | ok _ =>
        dsimp only
        rw [ih]
        simp [Offered.answer, Nat.add_assoc, Nat.add_comm 1]

/-- A closed run is counted, whatever becomes of its blocks. -/
theorem run_writeClosed (closed : Option (Range f)) :
    (writeClosed (recorded sink) closed).run (⟨c, n⟩, taken, s) =
      match closed with
      | none => (.ok (), (⟨c, n⟩, taken, s))
      | some run =>
          let (o, t) := offer sink run.blocks s
          (o.answer, (⟨c, ⟨n.runs + 1, n.blocks + o.taken.length⟩⟩, taken ++ o.taken, t)) := by
  cases closed with
  | none => rfl
  | some run =>
    show (writeRun (recorded sink) run).run _ = _
    rw [writeRun, Fallible.run_bind]
    exact run_writeBlocks run.blocks

theorem run_push (r : Range f) :
    (push (recorded sink) r).run (⟨c, n⟩, taken, s) =
      (writeClosed (recorded sink) (c.push r).2).run (⟨(c.push r).1, n⟩, taken, s) := rfl

theorem run_finish :
    (finish (recorded sink)).run (⟨c, n⟩, taken, s) =
      match c.run with
      | none => (.ok n, (⟨.empty f, n⟩, taken, s))
      | some run =>
          let (o, t) := offer sink run.blocks s
          let counts : CoverCounts := ⟨n.runs + 1, n.blocks + o.taken.length⟩
          (o.answer.map fun _ => counts, (⟨.empty f, counts⟩, taken ++ o.taken, t)) := by
  rw [finish, Fallible.run_bind, Fallible.run_get]
  show (Fallible.run (writeClosed (recorded sink) c.run >>= _) (⟨.empty f, n⟩, taken, s)) = _
  rw [Fallible.run_bind, run_writeClosed]
  obtain ⟨_ | run⟩ := c
  · rfl
  · dsimp only
    rcases offer sink run.blocks s with ⟨⟨got, _ | e⟩, t⟩ <;> rfl

/-! ## All steps -/

theorem pushAll_append (before later : List (Range f)) (w : CoverWriter f × σ) :
    pushAll sink (before ++ later) w =
      ((pushAll sink before w).1 ++ (pushAll sink later (pushAll sink before w).2).1,
        (pushAll sink later (pushAll sink before w).2).2) := by
  induction before generalizing w with
  | nil => rfl
  | cons r rest ih => simp only [List.cons_append, pushAll, ih]

/-- From a writer on its way: what feeding ranges and finishing comes to, by what becomes of the runs
that are still to be closed. -/
structure OffersRest (sink : Block f → Fallible σ ε Unit) (c : Coalescer f) (n : CoverCounts)
    (taken : List (Block f)) (s : σ) (ranges : List (Range f)) (pushes : List (Except ε Unit))
    (finished : Except ε CoverCounts × (CoverWriter f × (List (Block f) × σ))) : Prop where
  answers : Answers (c.closings ranges) (offerAll sink (c.runs ranges) s).1
    (pushes ++ [finished.1.map fun _ => ()])
  accepted : finished.2.2.1 = taken ++ (offerAll sink (c.runs ranges) s).1.flatMap (·.taken)
  state : finished.2.2.2 = (offerAll sink (c.runs ranges) s).2
  counts : ∀ counts, finished.1 = .ok counts → counts =
    ⟨n.runs + (c.runs ranges).length,
      n.blocks + ((offerAll sink (c.runs ranges) s).1.flatMap (·.taken)).length⟩

theorem offers_last (c : Coalescer f) (n : CoverCounts) (taken : List (Block f)) (s : σ) :
    OffersRest sink c n taken s [] [] ((finish (recorded sink)).run (⟨c, n⟩, taken, s)) := by
  rw [run_finish]
  obtain ⟨_ | run⟩ := c
  · refine ⟨.nothing .nil, ?_, rfl, fun counts done => ?_⟩
    · exact (List.append_nil taken).symm
    · exact (Except.ok.inj done).symm
  · refine ⟨?_, ?_, rfl, fun counts done => ?_⟩
    · rw [List.nil_append, Offered.map_answer]
      exact .closed .nil
    · exact congrArg (taken ++ ·) (List.append_nil _).symm
    · rw [Offered.eq_of_map_answer done]
      simp [Coalescer.runs, Coalescer.finish, offerAll]

theorem offers_rest (c : Coalescer f) (n : CoverCounts) (taken : List (Block f)) (s : σ)
    (ranges : List (Range f)) :
    OffersRest sink c n taken s ranges
      (pushAll (recorded sink) ranges (⟨c, n⟩, taken, s)).1
      ((finish (recorded sink)).run (pushAll (recorded sink) ranges (⟨c, n⟩, taken, s)).2) := by
  induction ranges generalizing c n taken s with
  | nil => exact offers_last c n taken s
  | cons r rest ih =>
    rw [pushAll, run_push, run_writeClosed]
    cases closed : (c.push r).2 with
    | none =>
      have runs : c.runs (r :: rest) = (c.push r).1.runs rest := by
        rw [Coalescer.runs, closed]
        rfl
      have later := ih (c.push r).1 n taken s
      refine ⟨?_, ?_, ?_, fun counts done => ?_⟩
      all_goals rw [runs]
      · rw [Coalescer.closings, closed]
        exact .nothing later.answers
      · exact later.accepted
      · exact later.state
      · exact later.counts counts done
    | some run =>
      have runs : c.runs (r :: rest) = run :: (c.push r).1.runs rest := by
        rw [Coalescer.runs, closed]
        rfl
      have later := ih (c.push r).1
        ⟨n.runs + 1, n.blocks + (offer sink run.blocks s).1.taken.length⟩
        (taken ++ (offer sink run.blocks s).1.taken) (offer sink run.blocks s).2
      refine ⟨?_, ?_, ?_, fun counts done => ?_⟩
      all_goals rw [runs]
      · rw [Coalescer.closings, closed]
        exact .closed later.answers
      · refine later.accepted.trans ?_
        rw [List.append_assoc]
        rfl
      · exact later.state
      · rw [later.counts counts done]
        simp [offerAll, Nat.add_assoc, Nat.add_comm 1]

/-- What feeding ranges to a new writer and finishing it comes to.  `offerAll` says for each run of the
ranges which of its blocks the sink takes. -/
structure Offers (sink : Block f → Fallible σ ε Unit) (s : σ) (ranges : List (Range f)) :
    Prop where
  decomposed : (coalesce ranges).mapM Range.decompose = .ok ((coalesce ranges).map Range.blocks)
  parts : List.Forall₂ (fun run o => Offered.Of (Range.blocks run) o)
    (coalesce ranges) (offerAll sink (coalesce ranges) s).1
  accepted : (feed sink ranges s).taken =
    (offerAll sink (coalesce ranges) s).1.flatMap (·.taken)
  state : (feed sink ranges s).sink = (offerAll sink (coalesce ranges) s).2
  /-- Every run is closed by one step, the last of which is the finish. -/
  closings : ((Coalescer.empty f).closings ranges).reduceOption = coalesce ranges
  answers : Answers ((Coalescer.empty f).closings ranges) (offerAll sink (coalesce ranges) s).1
    ((feed sink ranges s).pushes ++ [(feed sink ranges s).finish.map fun _ => ()])
  counts : ∀ counts, (feed sink ranges s).finish = .ok counts →
    counts = ⟨(coalesce ranges).length, (feed sink ranges s).taken.length⟩
  whole : (∀ o ∈ (offerAll sink (coalesce ranges) s).1, o.refusal = none) →
    minimalCoverOrMisuse ranges = .ok (feed sink ranges s).taken
  prefixes : ∀ before later, ranges = before ++ later →
    (after sink before s).2.2.1 <+: (feed sink ranges s).taken

/-- What was taken after some of the ranges is part of what is taken in the end. -/
theorem taken_isPrefix (before later : List (Range f)) (s : σ) :
    (after sink before s).2.2.1 <+: (feed sink (before ++ later) s).taken := by
  rcases h : pushAll (recorded sink) before (empty f, [], s) with ⟨pushes, ⟨c, n⟩, taken, t⟩
  have split : (feed sink (before ++ later) s).taken =
      ((finish (recorded sink)).run
        (pushAll (recorded sink) later (⟨c, n⟩, taken, t)).2).2.2.1 := by
    rw [feed, after, pushAll_append, h]
  have rest : (feed sink (before ++ later) s).taken = taken ++ _ :=
    split.trans (offers_rest c n taken t later).accepted
  rw [after, h, rest]
  exact List.prefix_append taken _

/-- **A cover writer refines coalescing and decomposing**, whatever calls its sink refuses: of every
run of the ranges the sink takes the blocks before the first that it refuses, the step that closed the
run is the one that fails, and the next run is offered all the same. -/
theorem writer_offers (sink : Block f → Fallible σ ε Unit) (s : σ) {ranges : List (Range f)}
    (ordered : ∀ r ∈ ranges, r.first ≤ r.last) : Offers sink s ranges := by
  have upright : ∀ run ∈ coalesce ranges, run.first ≤ run.last :=
    Coalescer.runs_ordered (fun run held => by cases held) ordered
  have decomposed := mapM_decompose upright
  have parts := offerAll_of sink (coalesce ranges) s
  have rest : OffersRest sink (.empty f) ⟨0, 0⟩ [] s ranges _ _ :=
    offers_rest (.empty f) ⟨0, 0⟩ [] s ranges
  have accepted : (feed sink ranges s).taken =
      (offerAll sink (coalesce ranges) s).1.flatMap (·.taken) := rest.accepted
  refine ⟨decomposed, parts, accepted, rest.state, Coalescer.reduceOption_closings _ ranges,
    rest.answers, fun counts done => ?_, fun calm => ?_, ?_⟩
  · rw [accepted, rest.counts counts done, Nat.zero_add, Nat.zero_add]
    rfl
  · rw [accepted, taken_of_no_refusal parts calm, minimalCoverOrMisuse, decomposed, List.flatMap]
    rfl
  · rintro before later rfl
    exact taken_isPrefix before later s

/-! ## A sink that fails once -/

/-- A sink that keeps what it accepts and refuses one of its calls. -/
structure FlakySink (f : Family) where
  accepted : List (Block f)
  calls : Nat

/-- Accept a block, or refuse it when this call's number is `failAt`; refused calls count too. -/
def FlakySink.accept (failAt : Option Nat) (b : Block f) : Fallible (FlakySink f) Nat Unit :=
  fun s =>
    let called := { s with calls := s.calls + 1 }
    if failAt = some s.calls then (.error s.calls, called)
    else (.ok (), { called with accepted := s.accepted ++ [b] })

/-- Two runs, of which the first has two blocks. -/
def twoRuns : List (Range .v4) :=
  [⟨.wrap .v4 1, .wrap .v4 2⟩, ⟨.wrap .v4 3, .wrap .v4 3⟩, ⟨.wrap .v4 9, .wrap .v4 9⟩]

/-- The second block of the first run is refused, and the second run is written. -/
theorem writer_offers_twoRuns :
    (∀ r ∈ twoRuns, r.first ≤ r.last) ∧ Offers (FlakySink.accept (some 1)) ⟨[], 0⟩ twoRuns ∧
      (feed (FlakySink.accept (some 1)) twoRuns ⟨[], 0⟩).taken =
        [⟨.wrap .v4 1, 32⟩, ⟨.wrap .v4 9, 32⟩] ∧
      (feed (FlakySink.accept (some 1)) twoRuns ⟨[], 0⟩).pushes = [.ok (), .ok (), .error 1] := by
  have ordered : ∀ r ∈ twoRuns, r.first ≤ r.last := by decide
  have offers := writer_offers (FlakySink.accept (some 1)) ⟨[], 0⟩ ordered
  exact ⟨ordered, offers, by decide +kernel, by decide +kernel⟩

end CoverWriter

end NetRegistry
