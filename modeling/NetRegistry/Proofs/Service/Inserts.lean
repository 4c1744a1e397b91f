/-
# Proofs.Service.Inserts -- inserts that are rejected, and ranges that are not

A netblock is accepted when its range is one block and the prefix length given with it
is that of the range; this is checked before anything is written.  The blocks of a
range that is not inverted all pass the check, so none of them can stop the range
half-way.

* `anchored_after`: in an orderly history the open import finds the row of its
  registrar, which is all that a checked record needs to be written.
* `handle_rejected`: an insert that is rejected leaves the service as it was.
* `handle_insertRange`: a range is written as its blocks are, one by one.
* `after_withoutRejected`: so a session comes to the same without the inserts that it
  rejected.

**Main theorem** `inserts_exact`.
-/
import NetRegistry.Proofs.Service.OpenImport
import NetRegistry.Proofs.Store.Linked

namespace NetRegistry

set_option autoImplicit false

open Importer (Known blockRecord)

/-- The insert of a netblock by its range and prefix length. -/
def Request.netblock {f : Family} (n : NetblockRecord f) : Request (Block f) :=
  .insertNetblock f (.range n.range.first n.range.last n.prefixLen) ⟨n.reference, n.name, n.descr⟩

/-- The inserts of blocks with the attributes of a range, newest first. -/
def Event.ofBlocks {f : Family} (a : Attributes) (blocks : List (Block f)) : List Event :=
  (blocks.map fun b => ⟨Request.netblock (blockRecord a b)⟩).reverse

namespace Service

variable {α : Type} {s : Service} {t u : Tables} {stored : Option Tables} {i : Importer}

theorem after_append (later past : List Event) :
    s.after (later ++ past) = (s.after past).after later := by
  induction later with
  | nil => rfl
  | cons e later ih => exact congrArg (fun s => (handle e.request s).2) ih

/-! ## The registrar of the open import -/

/-- A request without transactions that inserts nothing does not touch the import. -/
theorem importer_plain {r : Request α} (plain : r.isPlain = true) (other : r.isInsert = false)
    (s : Service) : (handle r s).2.importer = s.importer := by
  cases r <;> first | rfl | exact Bool.noConfusion plain | exact Bool.noConfusion other

theorem anchored_plain {r : Request α} (plain : r.isPlain = true) (other : r.isInsert = false)
    (anchored : s.Anchored) : (handle r s).2.Anchored := by
  intro i held
  rw [importer_plain plain other] at held
  have known : Holds s.importer.isSome (fun db => (db.tables.registrar? i.registrar.id).isSome = true)
      (s.importer, .on s.db) := ⟨rfl, anchored i held⟩
  exact ((keeps_plain (Database.stable_registrar i.registrar.id) r plain).run known).2

/-- In an orderly history the open import finds its registrar. -/
theorem anchored_after {history : List Event} (orderly : ∀ e ∈ history, e.Orderly) :
    (empty.after history).Anchored := by
  induction history with
  | nil =>
    intro i held
    cases held
  | cons e past ih =>
    have earlier := fun d member => orderly d (List.mem_cons_of_mem _ member)
    have anchored := ih earlier
    have bracketed := bracketed_after earlier
    have sound := (reachable_after fun d member => (earlier d member).visible).database.sound.1
    obtain ⟨visible, automatic, rollsBack⟩ := orderly e List.mem_cons_self
    show (handle e.request (empty.after past)).2.Anchored
    obtain ⟨r⟩ := e
    by_cases insert : r.isInsert = true
    · exact (moves_insert bracketed anchored insert).anchored anchored
    by_cases plain : r.isPlain = true
    · exact anchored_plain plain (Bool.eq_false_iff.mpr insert) anchored
    by_cases kind : (r.beginsImport || r.endsImport || r.isRebuild) = true
    · exact (moves_unless_insert bracketed sound kind rollsBack).anchored anchored
    -- What is left is to open the database again, which closes everything.
    cases r with
    | reopen =>
      obtain ⟨db, _ | i⟩ := empty.after past <;> intro i held <;> cases held
    | _ => first
      | exact absurd rfl plain
      | exact absurd rfl kind
      | exact Bool.noConfusion automatic
      | exact Bool.noConfusion visible

/-! ## Netblocks -/

section Netblock

variable {f : Family} {n : NetblockRecord f} {source : NetblockSource f} {a : Attributes}
  {db : Database}

theorem insertNetblock_rejected {e : Error} (named : record source a = .ok n)
    (refused : Importer.check n = .error e) :
    answer (.insertNetblock f source a) ⟨db, some i⟩ = .error (.error e) ∧
      (handle (.insertNetblock f source a) ⟨db, some i⟩).2 = ⟨db, some i⟩ := by
  have runs := run_insertNetblock source a i (.on db)
  rw [named] at runs
  dsimp only at runs
  rw [Importer.run_insertNetblock_of_refused refused] at runs
  obtain ⟨answered, -, state⟩ := handle_eq (s := ⟨db, some i⟩) runs
  exact ⟨answered, state⟩

theorem insertNetblock_accepted {new : Bool} (named : record source a = .ok n)
    (accepted : Importer.check n = .ok ())
    (run : Write.writeNetblock i.registrar.id i.serial n t = .ok (new, u)) :
    answer (.insertNetblock f source a) ⟨⟨t, stored⟩, some i⟩ =
        .ok ⟨n.range.first, n.prefixLen⟩ ∧
      (handle (.insertNetblock f source a) ⟨⟨t, stored⟩, some i⟩).2 =
        ⟨⟨u, stored⟩, some (if new then i.countNetblock f else i)⟩ := by
  have on : (Session.on ⟨t, stored⟩).db = ⟨t, stored⟩ := rfl
  have runs := run_insertNetblock source a i (.on ⟨t, stored⟩)
  rw [named] at runs
  dsimp only at runs
  rw [Importer.run_insertNetblock_of_accepted accepted on run] at runs
  obtain ⟨answered, -, state⟩ := handle_eq (s := ⟨⟨t, stored⟩, some i⟩) runs
  exact ⟨answered, state⟩

/-- With its registrar there, a netblock is accepted exactly when it passes the check. -/
theorem insertNetblock_ok_iff (known : i.Known t) (named : record source a = .ok n) :
    (∃ b, answer (.insertNetblock f source a) ⟨⟨t, stored⟩, some i⟩ = .ok b) ↔
      Importer.check n = .ok () := by
  constructor
  · rintro ⟨b, ok⟩
    cases checked : Importer.check n with
    | ok => rfl
    | error e =>
      rw [(insertNetblock_rejected named checked).1] at ok
      cases ok
  · intro accepted
    obtain ⟨new, u, run⟩ := Write.writeNetblock_ok known i.serial n
    exact ⟨_, (insertNetblock_accepted named accepted run).1⟩

end Netblock

/-! ## Ranges -/

section Blocks

variable {f : Family} (a : Attributes) {blocks : List (Block f)}

/-- Writing blocks is inserting them one by one. -/
theorem run_insertBlocks (valid : ∀ b ∈ blocks, b.Valid) (known : i.Known t) {v : Session}
    (on : v.db = ⟨t, stored⟩) :
    ∃ j u w, (Importer.insertBlocks a blocks).run (i, v) = (.ok (), (j, w)) ∧
      w.db = ⟨u, stored⟩ ∧
      Service.after ⟨⟨t, stored⟩, some i⟩ (Event.ofBlocks a blocks) = ⟨⟨u, stored⟩, some j⟩ := by
  induction blocks generalizing i t v with
  | nil => exact ⟨i, t, v, rfl, on, rfl⟩
  | cons b rest ih =>
    have accepted := Importer.check_blockRecord (valid b List.mem_cons_self) a
    obtain ⟨new, u, run⟩ := Write.writeNetblock_ok known i.serial (blockRecord a b)
    have goesOn : Known (if new then i.countNetblock f else i) u :=
      known.goesOn (.netblock run) ((Importer.Writes.refl t .empty).netblock accepted run)
    obtain ⟨j, u', w, later, db, after⟩ :=
      ih (fun c member => valid c (List.mem_cons_of_mem _ member)) goesOn
        (v := { v with db := ⟨u, stored⟩ }) rfl
    refine ⟨j, u', w, ?_, db, ?_⟩
    · rw [Importer.insertBlocks, Fallible.run_get_bind, Fallible.run_bind, Fallible.run_onSecond,
        Importer.run_insertNetblock_of_accepted accepted on run]
      exact later
    · rw [Event.ofBlocks, List.map_cons, List.reverse_cons, after_append]
      refine Eq.trans (congrArg (Service.after · _) ?_) after
      exact (insertNetblock_accepted rfl accepted run).2

/-- A range that is not inverted is written as its blocks are, one by one. -/
theorem handle_insertRange {first last : Addr f} (ordered : first ≤ last) (known : i.Known t) :
    ∃ blocks, Range.decompose ⟨first, last⟩ = .ok blocks ∧
      answer (.insertRange first last a) ⟨⟨t, stored⟩, some i⟩ = .ok blocks.length ∧
      (handle (.insertRange first last a) ⟨⟨t, stored⟩, some i⟩).2 =
        Service.after ⟨⟨t, stored⟩, some i⟩ (Event.ofBlocks a blocks) := by
  have upright : ¬ last < first := Nat.not_lt.mpr ordered
  have valid := (Range.blocks_canonicalCover (r := ⟨first, last⟩) ordered).valid
  have on : (Session.on ⟨t, stored⟩).db = ⟨t, stored⟩ := rfl
  obtain ⟨j, u, w, run, db, after⟩ := run_insertBlocks a valid known on
  -- A range of more than one block is noted in the log, which the service does not keep.
  obtain ⟨x, ran, same⟩ : ∃ x, (Importer.insertRange ⟨first, last⟩ a).run (i, .on ⟨t, stored⟩) =
      (.ok (Range.blocks ⟨first, last⟩).length, (j, x)) ∧ x.db = w.db := by
    rw [Importer.insertRange, Fallible.run_bind, run]
    dsimp only
    split <;> exact ⟨_, rfl, rfl⟩
  have runs := run_insertRange first last a i (.on ⟨t, stored⟩)
  rw [if_neg upright, ran] at runs
  obtain ⟨answered, -, state⟩ := handle_eq (s := ⟨⟨t, stored⟩, some i⟩) runs
  refine ⟨_, if_neg upright, answered, ?_⟩
  rw [state, same, db, after]

end Blocks

/-! ## Rejected inserts -/

/-- Whether a request is an insert that the service rejects. -/
def rejects (s : Service) (e : Event) : Bool :=
  e.isInsert && match answer e.request s with
    | .ok _ => false
    | .error _ => true

/-- Requests, newest first, without the inserts that were rejected when their turn came. -/
def withoutRejected (s : Service) : List Event → List Event
  | [] => []
  | e :: later =>
      if (s.after later).rejects e then s.withoutRejected later else e :: s.withoutRejected later

theorem rejects_iff {e : Event} :
    s.rejects e = true ↔ e.isInsert = true ∧ ∃ why, answer e.request s = .error why := by
  unfold rejects
  rw [Bool.and_eq_true]
  cases answer e.request s <;> simp

/-- An insert that is rejected leaves the service as it was. -/
theorem handle_rejected (anchored : s.Anchored) {e : Event} (rejected : s.rejects e = true) :
    (handle e.request s).2 = s := by
  obtain ⟨insert, why, answered⟩ := rejects_iff.mp rejected
  obtain ⟨⟨t, stored⟩, _ | i⟩ := s
  · obtain ⟨r⟩ := e
    cases r with
    | insertOrg _ | insertNetblock _ _ _ | insertRange _ _ _ => rfl
    | _ => exact Bool.noConfusion insert
  have known := anchored i rfl
  obtain ⟨r⟩ := e
  cases r with
  | insertOrg o =>
    have runs := run_insertOrg o i (.on ⟨t, stored⟩)
    have ends := Importer.insertOrg_ends (s := .on ⟨t, stored⟩) rfl known o
    rcases ends.run_cases with ⟨j, v, run, -⟩ | ⟨_, _, _, no⟩
    · rw [run] at runs
      have done := (handle_eq (s := ⟨⟨t, stored⟩, some i⟩) runs).1
      cases done.symm.trans answered
    · exact no.elim
  | insertNetblock f source a =>
    cases named : record source a with
    | error e =>
      have runs := run_insertNetblock source a i (.on ⟨t, stored⟩)
      rw [named] at runs
      exact (handle_eq (s := ⟨⟨t, stored⟩, some i⟩) runs).2.2
    | ok n =>
      cases checked : Importer.check n with
      | error e => exact (insertNetblock_rejected named checked).2
      | ok =>
        obtain ⟨b, done⟩ := (insertNetblock_ok_iff known named).mpr checked
        cases done.symm.trans answered
  | insertRange first last a =>
    by_cases inverted : last < first
    · have runs := run_insertRange first last a i (.on ⟨t, stored⟩)
      rw [if_pos inverted] at runs
      exact (handle_eq (s := ⟨⟨t, stored⟩, some i⟩) runs).2.2
    · obtain ⟨blocks, -, done, -⟩ := handle_insertRange a (Nat.not_lt.mp inverted) known
      cases done.symm.trans answered
  | _ => exact Bool.noConfusion insert

/-- A session comes to the same without the inserts that were rejected in it. -/
theorem after_withoutRejected {past calls : List Event} (orderly : ∀ e ∈ calls ++ past, e.Orderly) :
    (empty.after past).after calls =
      (empty.after past).after ((empty.after past).withoutRejected calls) := by
  induction calls with
  | nil => rfl
  | cons e later ih =>
    have earlier : ∀ d ∈ later ++ past, d.Orderly :=
      fun d member => orderly d (List.mem_cons_of_mem _ member)
    have same := ih earlier
    have anchored := anchored_after earlier
    rw [after_append] at anchored
    unfold withoutRejected
    split
    · rename_i rejected
      rw [← same]
      exact handle_rejected anchored rejected
    · exact congrArg (fun s => (handle e.request s).2) same

/-! ## Inserts into an open import -/

/-- What the inserts into an open import do. -/
structure InsertsExactly (s : Service) : Prop where
  /-- A netblock is accepted exactly when it is one block with the prefix length that it says. -/
  accepts : ∀ {f : Family} (n : NetblockRecord f),
    (∃ b, answer (.netblock n) s = .ok b) ↔
      n.range.first ≤ n.range.last ∧
        ∃ b : Block f, b.Valid ∧ b.range = n.range ∧ b.prefixLen = n.prefixLen
  /-- One that is rejected changes neither what is stored nor what has been counted. -/
  rejects : ∀ e : Event, s.rejects e = true → (handle e.request s).2 = s
  /-- A range that is not inverted is never rejected, and is the same as its blocks. -/
  ranges : ∀ {f : Family} (first last : Addr f) (a : Attributes), first ≤ last →
    ∃ blocks, Range.decompose ⟨first, last⟩ = .ok blocks ∧
      answer (.insertRange first last a) s = .ok blocks.length ∧
      (handle (.insertRange first last a) s).2 = s.after (Event.ofBlocks a blocks)

theorem insertsExactly (anchored : s.Anchored) (opened : s.importer.isSome = true) :
    InsertsExactly s := by
  refine ⟨?_, fun e => handle_rejected anchored, ?_⟩ <;> obtain ⟨⟨t, stored⟩, _ | i⟩ := s
  · cases opened
  · intro f n
    refine (insertNetblock_ok_iff (anchored i rfl) rfl).trans (Importer.check_eq_ok_iff.trans ?_)
    constructor
    · rintro ⟨b, valid, range, prefixLen⟩
      refine ⟨?_, b, valid, range, prefixLen⟩
      rw [← range]
      exact b.base.le_broadcast b.prefixLen
    · rintro ⟨-, found⟩
      exact found
  · cases opened
  · exact fun first last a ordered => handle_insertRange a ordered (anchored i rfl)

/-- **Rejected records leave no trace, and ranges are never rejected.** Whatever public operations
led to an open import, its inserts do what they should, and however it goes on, it is finished with
the same statistics and the same database as without the inserts that were rejected. -/
theorem inserts_exact {history : List Event} (orderly : ∀ e ∈ history, e.Orderly)
    (opened : (empty.after history).importer.isSome = true) :
    InsertsExactly (empty.after history) ∧
      ∀ calls : List Event, (∀ e ∈ calls, e.Orderly) → ∀ now,
        let kept := (empty.after history).withoutRejected calls
        answer (.finishImport now) ((empty.after history).after calls) =
            answer (.finishImport now) ((empty.after history).after kept) ∧
          (empty.after history).after (⟨.finishImport now⟩ :: calls) =
            (empty.after history).after (⟨.finishImport now⟩ :: kept) := by
  constructor
  · exact insertsExactly (anchored_after orderly) opened
  · intro calls later now
    have all : ∀ e ∈ calls ++ history, e.Orderly :=
      fun e member => (List.mem_append.mp member).elim (later e) (orderly e)
    have same := after_withoutRejected all
    exact ⟨congrArg _ same, congrArg (fun s => (handle (.finishImport now) s).2) same⟩

/-- A report of the addresses 0 to 255, which are a block with 24 bits of prefix. -/
def reported (prefixLen : Nat) : Event :=
  ⟨.insertNetblock .v4 (.range (.wrap .v4 0) (.wrap .v4 255) prefixLen) ⟨none, "C", ""⟩⟩

/-- The second report is rejected. -/
def flawed : List Event := [⟨.insertOrg ⟨"NEW", "", ""⟩⟩, reported 16, reported 24]

theorem inserts_exact_flawed :
    (∀ e ∈ secondImport, e.Orderly) ∧ (empty.after secondImport).importer.isSome = true ∧
      (∀ e ∈ flawed, e.Orderly) ∧
      (empty.after secondImport).withoutRejected flawed =
        [⟨.insertOrg ⟨"NEW", "", ""⟩⟩, reported 24] ∧
      InsertsExactly (empty.after secondImport) ∧
      answer (.finishImport 9) ((empty.after secondImport).after flawed) =
        answer (.finishImport 9) ((empty.after secondImport).after
          [⟨.insertOrg ⟨"NEW", "", ""⟩⟩, reported 24]) := by
  have orderly : ∀ e ∈ secondImport, e.Orderly :=
    fun e member => (dropped_routine e (List.mem_cons_of_mem _ member)).orderly
  have calls : ∀ e ∈ flawed, e.Orderly := by
    intro e member
    simp only [flawed, List.mem_cons, List.not_mem_nil, or_false] at member
    rcases member with rfl | rfl | rfl <;> exact ⟨rfl, rfl, fun _ => rfl⟩
  have kept : (empty.after secondImport).withoutRejected flawed =
      [⟨.insertOrg ⟨"NEW", "", ""⟩⟩, reported 24] := rfl
  obtain ⟨exactly, finishes⟩ := inserts_exact orderly rfl
  refine ⟨orderly, rfl, calls, kept, exactly, ?_⟩
  rw [← kept]
  exact (finishes flawed calls 9).1

end Service

end NetRegistry
