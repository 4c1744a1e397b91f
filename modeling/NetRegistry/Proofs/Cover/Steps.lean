/-
# Proofs.Cover.Steps -- the steps of a tiling, computed on words

A `BlockCursor` walks over the blocks of a range the way a machine does: the
length of what is left, its logarithm and the address behind a block are computed
on words, and every operation that would wrap around is an `Overflow`.  The length
of the whole space does not fit a word, so that range is told apart first.

* `BlockCursor.run_advance_of_some`, `BlockCursor.run_advance_of_none`: one step hands
  out the block of the tiling, moves to what the tiling leaves and never overflows.
* `BlockCursor.yields_blocks`: so the walk ends, with the blocks of the tiling.
* `Tiling.blocks_isChain`: what one step keeps holds between neighbouring blocks.

**Main theorem** `Range.blocks_tile`.
-/
import Mathlib.Data.List.Chain
import NetRegistry.Proofs.Address.Prefix
import NetRegistry.Proofs.Cover.Tiling
import NetRegistry.Proofs.Fallible

namespace NetRegistry

set_option autoImplicit false

open Fallible (Yields)

variable {f : Family}

theorem Addr.trailingZeros_bottom (f : Family) : (bottom f).trailingZeros = f.bits :=
  Nat.le_antisymm (trailingZerosUpTo_le _ _)
    ((le_trailingZerosUpTo_iff (Nat.le_refl _)).mpr (Nat.dvd_zero _))

namespace Tiling

variable {t u : Tiling f}

/-! ## Neighbouring blocks -/

theorem blocks_eq_cons (t : Tiling f) : ∃ later, t.blocks = t.block :: later := by
  cases more : t.rest? with
  | none => exact ⟨[], blocks_of_none more⟩
  | some u => exact ⟨u.blocks, blocks_of_some more⟩

/-- What holds between the blocks of two steps, as long as the steps keep a property, holds between
neighbouring blocks. -/
theorem blocks_isChain {R : Block f → Block f → Prop} {P : Tiling f → Prop}
    (step : ∀ t u : Tiling f, t.next ≤ t.last → P t → t.rest? = some u → R t.block u.block ∧ P u)
    (ordered : t.next ≤ t.last) (holds : P t) : t.blocks.IsChain R := by
  induction t using blocks.induct with
  | case1 t done =>
    rw [blocks_of_none done]
    exact .singleton _
  | case2 t u more ih =>
    obtain ⟨-, orderedU, -⟩ := next_of_rest? more
    obtain ⟨related, holdsU⟩ := step t u ordered holds more
    have chain := ih orderedU holdsU
    obtain ⟨later, split⟩ := u.blocks_eq_cons
    rw [blocks_of_some more, split]
    rw [split] at chain
    exact .cons_cons related chain

theorem getLast?_blocks (ordered : t.next ≤ t.last) :
    t.blocks.getLast?.map Block.last = some t.last := by
  induction t using blocks.induct with
  | case1 t done =>
    rw [blocks_of_none done]
    exact congrArg some (last_of_rest?_none ordered done)
  | case2 t u more ih =>
    obtain ⟨-, orderedU, last⟩ := next_of_rest? more
    obtain ⟨later, split⟩ := u.blocks_eq_cons
    rw [blocks_of_some more, split, List.getLast?_cons_cons, ← split, ih orderedU, last]

/-- A step that ends at the last address is the only one. -/
theorem blocks_of_block_last (last : t.block.last = t.last) : t.blocks = [t.block] := by
  have final : ¬ t.block.last < t.last := last ▸ Nat.lt_irrefl _
  exact blocks_of_none (if_neg final)

end Tiling

/-! ## The walk -/

/-- Where a walk over the blocks of a range stands. -/
structure BlockCursor (f : Family) where
  next : Addr f
  last : Addr f
  done : Bool

namespace BlockCursor

variable {t u : Tiling f}

/-- The walk over a range that the caller knows not to be inverted. -/
def start (r : Range f) : Except Misuse (BlockCursor f) :=
  if r.last < r.first then .error (.inverted r.first.toNat r.last.toNat)
  else .ok ⟨r.first, r.last, false⟩

/-- Logarithm of the length of the block to hand out: the alignment of the next address, or the
logarithm of what is left. -/
def exponent (c : BlockCursor f) : Except Overflow Nat := do
  let alignment := if c.next = .bottom f then f.bits else c.next.trailingZeros
  let span ← c.last.minus c.next
  let length ← span.plus (.one f)
  let fits ← length.logarithm
  return min alignment fits

/-- Hand out the next block, if there is one, and go behind it. -/
def advance : Fallible (BlockCursor f) Overflow (Option (Block f)) := do
  let c ← Fallible.get
  if c.done then return none
  else if c.next = .bottom f ∧ c.last = .top f then
    Fallible.modify fun c => { c with done := true }
    return some ⟨.bottom f, 0⟩
  else
    let e ← Fallible.ofExcept c.exponent
    let prefixLen ← Fallible.ofExcept (Addr.less f.bits e)
    let last := c.next ||| .lowMask f e
    if c.last ≤ last then
      Fallible.modify fun c => { c with done := true }
      return some ⟨c.next, prefixLen⟩
    else
      let behind ← Fallible.ofExcept (last.plus (.one f))
      Fallible.modify fun c => { c with next := behind }
      return some ⟨c.next, prefixLen⟩

/-- The walk that has yet to take the steps of a tiling. -/
def ofTiling (t : Tiling f) : BlockCursor f := ⟨t.next, t.last, false⟩

/-- Short of the whole space the length of what is left fits a word, and is not zero. -/
theorem exponent_eq_ok (ordered : t.next ≤ t.last)
    (part : ¬ (t.next = .bottom f ∧ t.last = .top f)) :
    (ofTiling t).exponent = .ok t.exponent := by
  have alignment : (if t.next = .bottom f then f.bits else t.next.trailingZeros) =
      t.next.trailingZeros := by
    split
    · rename_i zero
      rw [zero, Addr.trailingZeros_bottom]
    · rfl
  have span := Addr.toNat_distance ordered
  have length := Range.length_eq (r := ⟨t.next, t.last⟩) ordered
  have short : t.last.toNat - t.next.toNat + 1 < powTwo f.bits := by
    have top := t.last.isLt
    simp only [Addr.ext_iff_toNat, Addr.bottom, Addr.top] at part
    rw [Addr.le_def] at ordered
    omega
  let left : Addr f := ⟨t.last.toNat - t.next.toNat + 1, short⟩
  have sum : left.toNat = (t.next.distance t.last).toNat + (Addr.one f).toNat := by
    rw [span, Addr.toNat_one]
  have log : (Range.length ⟨t.next, t.last⟩).log2 = left.toNat.log2 := congrArg Nat.log2 length
  dsimp only [exponent, ofTiling]
  rw [alignment, Addr.minus_eq_ok ordered, Overflow.ok_bind, Addr.plus_eq_ok sum, Overflow.ok_bind,
    Addr.logarithm_eq_ok (Nat.succ_ne_zero _), Overflow.ok_bind, Tiling.exponent, log]
  rfl

/-- The last address of a block is its base with the low bits set. -/
theorem or_lowMask (t : Tiling f) : t.next ||| .lowMask f t.exponent = t.block.last := by
  have fits := t.exponent_le_bits
  have bits : Addr.hostBits f t.block.prefixLen = t.exponent := by
    show f.bits - (f.bits - t.exponent) = _
    omega
  show _ = t.next.broadcast t.block.prefixLen
  rw [Addr.broadcast_eq_or, Addr.hostMask, bits]

/-- The whole space is one block. -/
theorem block_of_whole (first : t.next = .bottom f) (last : t.last = .top f) :
    t.block = ⟨.bottom f, 0⟩ ∧ t.block.last = t.last := by
  have pos := powTwo_pos f.bits
  have ordered : t.next ≤ t.last := by
    rw [first]
    exact Nat.zero_le _
  have zero : t.next.toNat = 0 := congrArg Addr.toNat first
  have top : t.last.toNat = powTwo f.bits - 1 := congrArg Addr.toNat last
  have all : t.exponent = f.bits := by
    refine Nat.le_antisymm t.exponent_le_bits ?_
    rw [Tiling.le_exponent_iff ordered (Nat.le_refl _), zero, top]
    exact ⟨Nat.dvd_zero _, by omega⟩
  have block : t.block = ⟨.bottom f, 0⟩ := by
    rw [Tiling.block, first, all, Nat.sub_self]
  have size := (Tiling.block_valid ordered).toNat_last
  rw [Tiling.block_size, all] at size
  have base : t.block.base = t.next := rfl
  refine ⟨block, Addr.ext ?_⟩
  rw [base, zero] at size
  omega

/-- Short of the whole space a step computes the last address of its block, and is over there or
goes on behind it. -/
theorem run_advance (ordered : t.next ≤ t.last)
    (part : ¬ (t.next = .bottom f ∧ t.last = .top f)) :
    advance.run (ofTiling t) =
      (if t.last ≤ t.block.last then
        (.ok (some t.block), ⟨t.next, t.last, true⟩)
      else
        match t.block.last.plus (.one f) with
        | .ok behind => (.ok (some t.block), ⟨behind, t.last, false⟩)
        | .error e => (.error e, ofTiling t)) := by
  have running : ¬ (ofTiling t).done = true := Bool.false_ne_true
  have last : (ofTiling t).next ||| .lowMask f t.exponent = t.block.last := or_lowMask t
  rw [advance, Fallible.run_get_bind, if_neg running,
    if_neg (show ¬ ((ofTiling t).next = .bottom f ∧ (ofTiling t).last = .top f) from part),
    exponent_eq_ok ordered part, Fallible.run_ok_bind, Addr.less_eq_ok t.exponent_le_bits,
    Fallible.run_ok_bind, last]
  by_cases final : t.last ≤ t.block.last
  · rw [if_pos (show (ofTiling t).last ≤ t.block.last from final), if_pos final]
    rfl
  · rw [if_neg (show ¬ (ofTiling t).last ≤ t.block.last from final), if_neg final]
    cases t.block.last.plus (.one f) <;> rfl

/-- The last step ends the walk where it stands. -/
theorem run_advance_of_none (ordered : t.next ≤ t.last) (done : t.rest? = none) :
    advance.run (ofTiling t) = (.ok (some t.block), ⟨t.next, t.last, true⟩) := by
  by_cases whole : t.next = .bottom f ∧ t.last = .top f
  · rw [(block_of_whole whole.1 whole.2).1, advance, Fallible.run_get_bind,
      if_neg (show ¬ (ofTiling t).done = true from Bool.false_ne_true),
      if_pos (show (ofTiling t).next = .bottom f ∧ (ofTiling t).last = .top f from whole)]
    rfl
  · have last := Tiling.last_of_rest?_none ordered done
    rw [run_advance ordered whole, if_pos (show t.last ≤ t.block.last from last ▸ Nat.le_refl _)]

theorem run_advance_of_some (ordered : t.next ≤ t.last) (more : t.rest? = some u) :
    advance.run (ofTiling t) = (.ok (some t.block), ofTiling u) := by
  obtain ⟨next, orderedU, last⟩ := Tiling.next_of_rest? more
  rw [last] at orderedU
  have part : ¬ (t.next = .bottom f ∧ t.last = .top f) := by
    rintro ⟨first, top⟩
    have whole := (block_of_whole first top).2
    rw [Addr.le_def] at orderedU
    rw [whole] at next
    omega
  have goesOn : ¬ t.last ≤ t.block.last := by
    rw [Addr.le_def] at orderedU ⊢
    omega
  rw [run_advance ordered part, if_neg goesOn, Addr.plus_eq_ok (next.trans (by rw [Addr.toNat_one])),
    ← last]
  rfl

/-- The walk hands out the blocks of the tiling and ends. -/
theorem yields_blocks (ordered : t.next ≤ t.last) : Yields advance (ofTiling t) t.blocks := by
  induction t using Tiling.blocks.induct with
  | case1 t done =>
    rw [Tiling.blocks_of_none done]
    exact .item (run_advance_of_none ordered done) (.ended rfl rfl)
  | case2 t u more ih =>
    rw [Tiling.blocks_of_some more]
    obtain ⟨-, orderedU, -⟩ := Tiling.next_of_rest? more
    exact .item (run_advance_of_some ordered more) (ih orderedU)

end BlockCursor

/-! ## All blocks of a range -/

namespace Range

variable {r : Range f}

theorem blocks_eq (ordered : r.first ≤ r.last) : r.blocks = Tiling.blocks ⟨r.first, r.last⟩ :=
  if_neg (Nat.not_lt.mpr ordered)

/-- The blocks of the range stand end to end from its first address to its last. -/
structure Tiled (r : Range f) : Prop where
  /-- The walk hands them out and ends, and nothing wraps around on the way. -/
  walked : ∃ c, BlockCursor.start r = .ok c ∧ Yields BlockCursor.advance c r.blocks
  decomposed : r.decompose = .ok r.blocks
  starts : r.blocks.head?.map Block.base = some r.first
  adjacent : r.blocks.IsChain fun b c => c.base.toNat = b.last.toNat + 1
  ends : r.blocks.getLast?.map Block.last = some r.last
  accepted : ∀ b ∈ r.blocks, Block.of? b.base b.prefixLen = .ok b
  /-- The range is a single block exactly when it converts to one, to that one. -/
  single : ∀ b, r.blocks = [b] ↔ r.toBlock? = .ok b

theorem blocks_accepted (ordered : r.first ≤ r.last) :
    ∀ b ∈ r.blocks, Block.of? b.base b.prefixLen = .ok b := fun b member =>
  Block.of?_eq_ok_iff.mpr ⟨rfl, (blocks_canonicalCover ordered).valid b member⟩

theorem head?_blocks (ordered : r.first ≤ r.last) :
    r.blocks.head?.map Block.base = some r.first := by
  obtain ⟨later, split⟩ := Tiling.blocks_eq_cons ⟨r.first, r.last⟩
  rw [blocks_eq ordered, split]
  rfl

theorem getLast?_blocks (ordered : r.first ≤ r.last) :
    r.blocks.getLast?.map Block.last = some r.last := by
  rw [blocks_eq ordered]
  exact Tiling.getLast?_blocks ordered

theorem toBlock?_of_blocks_eq_singleton (ordered : r.first ≤ r.last) {b : Block f}
    (single : r.blocks = [b]) : r.toBlock? = .ok b := by
  have accepted := blocks_accepted ordered b (single ▸ List.mem_singleton_self b)
  have first := head?_blocks ordered
  have last := getLast?_blocks ordered
  rw [single] at first last
  exact toBlock?_eq_ok_iff.mpr
    ⟨accepted, Range.ext (Option.some.inj first) (Option.some.inj last)⟩

theorem blocks_of_toBlock? (ordered : r.first ≤ r.last) {b : Block f} (read : r.toBlock? = .ok b) :
    r.blocks = [b] := by
  obtain ⟨accepted, rfl⟩ := toBlock?_eq_ok_iff.mp read
  have valid := (Block.of?_eq_ok_iff.mp accepted).2
  let t : Tiling f := ⟨b.base, b.last⟩
  -- the first step takes at least the block of the range, so it is over
  have taken : b.last ∈ t.block :=
    Tiling.greedy (t := t) ordered valid rfl (Nat.le_refl _) b.last valid.last_mem
  have final : t.block.last = t.last := Addr.ext (Nat.le_antisymm (Tiling.block_last_le ordered)
    ((Tiling.block_valid ordered).mem_iff.mp taken).2)
  have single : b.range.blocks = [t.block] :=
    (blocks_eq ordered).trans (Tiling.blocks_of_block_last final)
  have again := toBlock?_of_blocks_eq_singleton ordered single
  rw [read] at again
  rw [single, Except.ok.inj again]

/-- **The blocks of a range tile it**, end to end, each of them accepted; they are computed on words
without overflow, and the range is one block when it converts to one. -/
theorem blocks_tile (ordered : r.first ≤ r.last) : r.Tiled where
  walked := by
    refine ⟨⟨r.first, r.last, false⟩, if_neg (Nat.not_lt.mpr ordered), ?_⟩
    rw [blocks_eq ordered]
    exact BlockCursor.yields_blocks (t := ⟨r.first, r.last⟩) ordered
  decomposed := if_neg (Nat.not_lt.mpr ordered)
  starts := head?_blocks ordered
  adjacent := by
    rw [blocks_eq ordered]
    refine Tiling.blocks_isChain (P := fun _ => True) (fun t u _ _ more => ?_) ordered trivial
    exact ⟨(Tiling.next_of_rest? more).1, trivial⟩
  ends := getLast?_blocks ordered
  accepted := blocks_accepted ordered
  single _ := ⟨toBlock?_of_blocks_eq_singleton ordered, blocks_of_toBlock? ordered⟩

/-- All addresses but the lowest: the alignment governs every step, and the last block ends at the top. -/
theorem blocks_tile_aboveBottom :
    (Addr.one .v4 ≤ Addr.top .v4) ∧ Tiled ⟨.one .v4, .top .v4⟩ ∧
      (Range.blocks ⟨.one .v4, .top .v4⟩).length = 32 :=
  ⟨by decide, blocks_tile (by decide), by decide +kernel⟩

end Range

end NetRegistry
