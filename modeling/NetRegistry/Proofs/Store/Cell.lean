/-
# Proofs.Store.Cell -- stored addresses keep their value and their order

* `ofCell?_toCell`, `ofCell?_eq_ok_iff`: reading a stored address back gives the
  address, and what is read as an address is how that address is stored.  For
  IPv6 this is `splitBits_joinBits`, digits read off the number that they spell.
* `toCell_le`: stored addresses compare as the addresses do, integers as numbers
  and byte strings from the most significant byte on.
* `bounds_toRow`, `scanLe_toRow`: the same of the pairs of cells that a scan
  reads, whose order is that of ranges by first address, then by last.
* `mergeSort_map_view`: so rows that hold ranges are scanned in the order of the
  ranges.
* `mapM_block_eq_ok_iff`: rows are read as blocks exactly when they are the rows
  that store those blocks, whose prefix lengths are no greater than a row can hold.

**Main theorem** `stored_exact`.
-/
import NetRegistry.Proofs.Cover.Block
import NetRegistry.Store.Read

namespace NetRegistry

set_option autoImplicit false

/-! ## Digits -/

theorem mod_powTwo_add (n low high : Nat) :
    n % powTwo (low + high) =
      n % powTwo low + powTwo low * (n / powTwo low % powTwo high) := by
  rw [powTwo_add, Nat.mod_mul]

theorem foldl_splitBits (width count n start : Nat) :
    (splitBits width count n).foldl (fun v d => v * powTwo width + d) start =
      start * powTwo (width * count) + n % powTwo (width * count) := by
  induction count generalizing start with
  | zero => simp [splitBits, powTwo_zero, Nat.mod_one]
  | succ k ih =>
    rw [splitBits, List.foldl_cons, ih, Nat.mul_succ, mod_powTwo_add, powTwo_add, Nat.add_mul,
      Nat.mul_assoc, Nat.mul_comm (powTwo width), Nat.mul_comm (_ % powTwo width)]
    omega

/-- The digits of a number are those of its residue. -/
theorem joinBits_splitBits (width count n : Nat) :
    joinBits width (splitBits width count n) = n % powTwo (width * count) := by
  rw [joinBits, foldl_splitBits, Nat.zero_mul, Nat.zero_add]

theorem lt_of_mem_splitBits {width count n d : Nat} (member : d ∈ splitBits width count n) :
    d < powTwo width := by
  induction count with
  | zero => cases member
  | succ k ih =>
    rcases List.mem_cons.mp member with rfl | later
    · exact Nat.mod_lt _ (powTwo_pos _)
    · exact ih later

/-- Digits with others in front of them. -/
theorem foldl_digits (width start : Nat) (digits : List Nat) :
    digits.foldl (fun v d => v * powTwo width + d) start =
      start * powTwo (width * digits.length) + joinBits width digits := by
  induction digits generalizing start with
  | nil => simp [joinBits, powTwo_zero]
  | cons d rest ih =>
    rw [joinBits, List.foldl_cons, List.foldl_cons, ih, ih (0 * powTwo width + d), List.length_cons,
      Nat.mul_succ, powTwo_add, Nat.zero_mul, Nat.zero_add, Nat.add_mul, Nat.mul_assoc,
      Nat.mul_comm (powTwo width), Nat.add_assoc]

theorem joinBits_cons (width d : Nat) (rest : List Nat) :
    joinBits width (d :: rest) = d * powTwo (width * rest.length) + joinBits width rest := by
  rw [joinBits, List.foldl_cons, foldl_digits, Nat.zero_mul, Nat.zero_add]

theorem joinBits_lt {width : Nat} {digits : List Nat} (small : ∀ d ∈ digits, d < powTwo width) :
    joinBits width digits < powTwo (width * digits.length) := by
  induction digits with
  | nil => exact powTwo_pos _
  | cons d rest ih =>
    have tail := ih fun e later => small e (List.mem_cons_of_mem _ later)
    have head := Nat.mul_le_mul_right (powTwo (width * rest.length))
      (Nat.succ_le_of_lt (small d List.mem_cons_self))
    rw [Nat.succ_mul] at head
    rw [joinBits_cons, List.length_cons, Nat.mul_succ, powTwo_add,
      Nat.mul_comm (powTwo (width * rest.length))]
    omega

/-- The last digits do not see what stands in front of them. -/
theorem splitBits_add (width count high n : Nat) :
    splitBits width count (high * powTwo (width * count) + n) = splitBits width count n := by
  induction count generalizing high with
  | zero => rfl
  | succ k ih =>
    have shifted : high * powTwo (width * (k + 1)) = high * powTwo width * powTwo (width * k) := by
      rw [Nat.mul_succ, powTwo_add, Nat.mul_comm (powTwo (width * k)), Nat.mul_assoc]
    rw [shifted, splitBits, splitBits, ih, Nat.add_comm, Nat.add_mul_div_right _ _ (powTwo_pos _),
      Nat.add_mul_mod_self_right]

/-- Digits are read off the number that they spell. -/
theorem splitBits_joinBits {width : Nat} {digits : List Nat}
    (small : ∀ d ∈ digits, d < powTwo width) :
    splitBits width digits.length (joinBits width digits) = digits := by
  induction digits with
  | nil => rfl
  | cons d rest ih =>
    have smallRest : ∀ e ∈ rest, e < powTwo width :=
      fun e later => small e (List.mem_cons_of_mem _ later)
    have place := powTwo_pos (width * rest.length)
    have head : (d * powTwo (width * rest.length) + joinBits width rest) /
        powTwo (width * rest.length) % powTwo width = d := by
      rw [Nat.add_comm, Nat.add_mul_div_right _ _ place,
        Nat.div_eq_of_lt (joinBits_lt smallRest), Nat.zero_add,
        Nat.mod_eq_of_lt (small d List.mem_cons_self)]
    rw [joinBits_cons, List.length_cons, splitBits, splitBits_add, ih smallRest, head]

theorem toNat_toUInt8 {d : Nat} (small : d < powTwo 8) : d.toUInt8.toNat = d :=
  Nat.mod_eq_of_lt small

/-- Byte strings of one length compare as the numbers that they spell. -/
theorem bytesLe_splitBits (count m n : Nat) :
    Cell.bytesLe ((splitBits 8 count m).map (·.toUInt8)) ((splitBits 8 count n).map (·.toUInt8)) =
      decide (m % powTwo (8 * count) ≤ n % powTwo (8 * count)) := by
  induction count with
  | zero => simp [splitBits, Cell.bytesLe, powTwo_zero, Nat.mod_one]
  | succ k ih =>
    have place := powTwo_pos (8 * k)
    have tailM := Nat.mod_lt m place
    have tailN := Nat.mod_lt n place
    rw [Nat.mul_succ, mod_powTwo_add, mod_powTwo_add]
    simp only [splitBits, List.map_cons, Cell.bytesLe, ih]
    generalize headM : m / powTwo (8 * k) % powTwo 8 = a
    generalize headN : n / powTwo (8 * k) % powTwo 8 = b
    have smallA : a < powTwo 8 := headM ▸ Nat.mod_lt _ (powTwo_pos _)
    have smallB : b < powTwo 8 := headN ▸ Nat.mod_lt _ (powTwo_pos _)
    rw [Bool.eq_iff_iff]
    simp only [Bool.or_eq_true, Bool.and_eq_true, decide_eq_true_eq, beq_iff_eq,
      UInt8.lt_iff_toNat_lt, ← UInt8.toNat_inj, toNat_toUInt8 smallA, toNat_toUInt8 smallB]
    rcases Nat.lt_trichotomy a b with less | same | more
    · have step := Nat.mul_le_mul_left (powTwo (8 * k)) (Nat.succ_le_of_lt less)
      rw [Nat.mul_succ] at step
      simp only [less, true_or, true_iff]
      omega
    · subst same
      simp
    · have step := Nat.mul_le_mul_left (powTwo (8 * k)) (Nat.succ_le_of_lt more)
      rw [Nat.mul_succ] at step
      constructor
      · rintro (less | ⟨same, -⟩) <;> omega
      · intro; omega

/-! ## Addresses -/

variable {f : Family}

@[simp] theorem ofCell?_toCell (a : Addr f) : Addr.ofCell? f a.toCell = .ok a := by
  cases f with
  | v4 =>
    simp [Addr.toCell, Addr.ofCell?, a.isLt]
  | v6 =>
    have bytes : ((splitBits 8 16 a.toNat).map (·.toUInt8)).map (·.toNat) =
        splitBits 8 16 a.toNat := by
      rw [List.map_map]
      exact (List.map_congr_left fun d member =>
        toNat_toUInt8 (lt_of_mem_splitBits member)).trans (List.map_id _)
    have whole : Addr.wrap .v6 (a.toNat % powTwo (8 * 16)) = a := by
      apply Addr.ext
      have small : a.toNat < powTwo (8 * 16) := a.isLt
      rw [Nat.mod_eq_of_lt small]
      exact Nat.mod_eq_of_lt a.isLt
    simp only [Addr.toCell, Addr.ofCell?, bytes, joinBits_splitBits, whole, List.length_map,
      length_splitBits, if_true]

/-- Sixteen bytes store the address that they spell. -/
theorem toCell_wrap_joinBits {bytes : List UInt8} (size : bytes.length = 16) :
    (Addr.wrap .v6 (joinBits 8 (bytes.map (·.toNat)))).toCell = .blob bytes := by
  have small : ∀ d ∈ bytes.map (·.toNat), d < powTwo 8 := by
    intro d member
    obtain ⟨byte, -, rfl⟩ := List.mem_map.mp member
    exact byte.toNat_lt
  have digits := splitBits_joinBits small
  have fits := joinBits_lt small
  rw [List.length_map, size] at digits fits
  have whole : (Addr.wrap .v6 (joinBits 8 (bytes.map (·.toNat)))).toNat =
      joinBits 8 (bytes.map (·.toNat)) := Nat.mod_eq_of_lt fits
  have back : (bytes.map (·.toNat)).map (·.toUInt8) = bytes := by
    rw [List.map_map]
    exact (List.map_congr_left fun byte _ => UInt8.ofNat_toNat).trans (List.map_id _)
  rw [Addr.toCell, whole, digits, back]

/-- What is read as an address is the stored value of that address. -/
theorem ofCell?_eq_ok_iff {c : Cell} {a : Addr f} : Addr.ofCell? f c = .ok a ↔ c = a.toCell := by
  constructor
  · intro read
    cases f with
    | v4 =>
      cases c with
      | null | real | text | blob => cases read
      | integer n =>
        rw [Addr.ofCell?] at read
        split at read
        · rename_i fits
          obtain rfl := Except.ok.inj read
          exact congrArg Cell.integer (Int.toNat_of_nonneg fits.1).symm
        · cases read
    | v6 =>
      cases c with
      | null | integer | real | text => cases read
      | blob bytes =>
        rw [Addr.ofCell?] at read
        split at read
        · rename_i size
          obtain rfl := Except.ok.inj read
          exact (toCell_wrap_joinBits size).symm
        · cases read
  · rintro rfl
    exact ofCell?_toCell a

theorem toCell_inj {a b : Addr f} : a.toCell = b.toCell ↔ a = b := by
  rw [← ofCell?_eq_ok_iff, ofCell?_toCell, Except.ok.injEq]

theorem toCell_le (a b : Addr f) : a.toCell.le b.toCell = decide (a ≤ b) := by
  cases f with
  | v4 => simp [Addr.toCell, Cell.le, Addr.le_def]
  | v6 =>
    have smallA : a.toNat < powTwo (8 * 16) := a.isLt
    have smallB : b.toNat < powTwo (8 * 16) := b.isLt
    simp only [Addr.toCell, Cell.le, bytesLe_splitBits, Nat.mod_eq_of_lt smallA,
      Nat.mod_eq_of_lt smallB, Addr.le_def]

/-- The stored values that hold an address of a family. -/
def Cell.HoldsAddr : Family → Cell → Prop
  | .v4, .integer n => 0 ≤ n ∧ n < powTwo 32
  | .v6, .blob bytes => bytes.length = 16
  | _, _ => False

theorem ofCell?_ok_iff_holdsAddr {c : Cell} :
    (∃ a, Addr.ofCell? f c = .ok a) ↔ c.HoldsAddr f := by
  cases f with
  | v4 =>
    cases c with
    | null | real | text | blob => simp [Addr.ofCell?, Cell.HoldsAddr]
    | integer n =>
      have size : powTwo Family.v4.bits = powTwo 32 := rfl
      have fits : 0 ≤ n ∧ n.toNat < powTwo Family.v4.bits ↔ 0 ≤ n ∧ n < powTwo 32 := by omega
      by_cases inside : 0 ≤ n ∧ n.toNat < powTwo Family.v4.bits
      · simp [Addr.ofCell?, Cell.HoldsAddr, inside, fits.mp inside]
      · simpa [Addr.ofCell?, Cell.HoldsAddr, inside] using mt fits.mpr inside
  | v6 =>
    cases c with
    | null | integer | real | text => simp [Addr.ofCell?, Cell.HoldsAddr]
    | blob bytes => by_cases size : bytes.length = 16 <;> simp [Addr.ofCell?, Cell.HoldsAddr, size]

/-- How one stored value compares with another. -/
def Cell.compare (c d : Cell) : Ordering :=
  if c.le d then if d.le c then .eq else .lt else .gt

/-- **Stored addresses** are read back as they were; a stored value is read as an address exactly
when it is the stored value of that address, so that IPv4 addresses are the integers of 32 bits,
IPv6 addresses the blobs of sixteen bytes, and nothing else is an address; and stored values
compare as the addresses do as numbers. -/
theorem stored_exact (f : Family) :
    (∀ a : Addr f, Addr.ofCell? f a.toCell = .ok a) ∧
    (∀ (c : Cell) (a : Addr f), Addr.ofCell? f c = .ok a ↔ c = a.toCell) ∧
    (∀ c : Cell, (∃ a, Addr.ofCell? f c = .ok a) ↔ c.HoldsAddr f) ∧
    ∀ a b : Addr f, a.toCell.compare b.toCell = Ord.compare a.toNat b.toNat := by
  refine ⟨ofCell?_toCell, fun c a => ofCell?_eq_ok_iff, fun c => ofCell?_ok_iff_holdsAddr, ?_⟩
  intro a b
  rw [Cell.compare, toCell_le, toCell_le, Nat.compare_eq_ite_le]
  simp only [Addr.le_def, decide_eq_true_eq]

/-! ## Rows of a scan -/

/-- The stored first and last address of a range. -/
def Range.toRow (r : Range f) : Cell × Cell := (r.first.toCell, r.last.toCell)

@[simp] theorem bounds_toRow (r : Range f) : Read.bounds f r.toRow = .ok r := by
  simp only [Read.bounds, Read.addr, Range.toRow, ofCell?_toCell]
  rfl

theorem scanLe_toRow (r s : Range f) : scanLe r.toRow s.toRow = r.le s := by
  simp only [scanLe, Range.toRow, Range.le, toCell_inj, toCell_le]
  by_cases same : r.first = s.first
  · simp [same, Addr.lt_def]
  · have apart : r.first.toNat ≠ s.first.toNat := fun h => same (Addr.ext h)
    rw [if_neg same, Bool.eq_iff_iff]
    simp only [decide_eq_true_eq, Bool.or_eq_true, Bool.and_eq_true, beq_iff_eq, same, false_and,
      or_false, Addr.le_def, Addr.lt_def]
    omega

/-- Scanned rows come in the order of the ranges. -/
theorem mergeSort_map_toRow (ranges : List (Range f)) :
    (ranges.map Range.toRow).mergeSort scanLe = (ranges.mergeSort Range.le).map Range.toRow :=
  (List.map_mergeSort fun r _ s _ => (scanLe_toRow r s).symm).symm

section Decoded

variable {α : Type} {view : α → Cell × Cell} {decode : α → Option (Range f)} {rows : List α}

/-- A scan of rows that hold ranges gives the ranges in their order. -/
theorem mergeSort_map_view
    (holds : ∀ a ∈ rows, ∃ r, decode a = some r ∧ view a = r.toRow ∧ r.first ≤ r.last) :
    (rows.map view).mergeSort scanLe =
      ((rows.filterMap decode).mergeSort Range.le).map Range.toRow := by
  rw [← mergeSort_map_toRow]
  congr 1
  induction rows with
  | nil => rfl
  | cons a rest ih =>
    obtain ⟨r, decoded, cells, -⟩ := holds a List.mem_cons_self
    have tail := ih fun b member => holds b (List.mem_cons_of_mem _ member)
    rw [List.map_cons, List.filterMap_cons_some decoded, List.map_cons, tail, cells]

theorem mergeSort_decoded_ordered
    (holds : ∀ a ∈ rows, ∃ r, decode a = some r ∧ view a = r.toRow ∧ r.first ≤ r.last) :
    ∀ r ∈ (rows.filterMap decode).mergeSort Range.le, r.first ≤ r.last := by
  intro r member
  obtain ⟨a, stored, decoded⟩ := List.mem_filterMap.mp (List.mem_mergeSort.mp member)
  obtain ⟨s, decoded', -, ordered⟩ := holds a stored
  rw [decoded] at decoded'
  cases decoded'
  exact ordered

end Decoded

/-! ## Rows of blocks -/

theorem addr_eq_ok_iff {column : Nat} {name : String} {c : Cell} {a : Addr f} :
    Read.addr f column name c = .ok a ↔ c = a.toCell := by
  rw [Read.addr, ← ofCell?_eq_ok_iff]
  rcases Addr.ofCell? f c with (_ | _ | _) | _ <;> simp

theorem prefixLen_eq_ok_iff {column n : Nat} {name : String} {c : Cell} :
    Read.prefixLen column name c = .ok n ↔ c = .integer n ∧ n ≤ maxPrefixLen := by
  cases c with
  | null | real | text | blob => simp [Read.prefixLen]
  | integer k =>
    rw [Read.prefixLen, Read.bounded, Cell.integer.injEq]
    split
    · rw [Except.ok.injEq]
      omega
    · refine iff_of_false nofun ?_
      omega

/-- What is read as a block is the row that stores it. -/
theorem block_eq_ok_iff {row : BlockRow} {b : Block f} :
    Read.block f row = .ok b ↔ row = b.toRow ∧ b.prefixLen ≤ maxPrefixLen := by
  obtain ⟨base, prefixLen⟩ := row
  have parts : Read.block f ⟨base, prefixLen⟩ = .ok b ↔
      Read.addr f 0 "address" base = .ok b.base ∧
        Read.prefixLen 1 "prefix_len" prefixLen = .ok b.prefixLen := by
    rw [Read.block]
    rcases Read.addr f 0 "address" base with e | a
    · exact iff_of_false nofun nofun
    · rcases Read.prefixLen 1 "prefix_len" prefixLen with e | n
      · exact iff_of_false nofun nofun
      · show Except.ok (⟨a, n⟩ : Block f) = .ok b ↔ _
        obtain ⟨base, prefixLen⟩ := b
        simp
  rw [parts, addr_eq_ok_iff, prefixLen_eq_ok_iff, Block.toRow, BlockRow.mk.injEq, and_assoc]

theorem mapM_cons_eq_ok_iff {α β ε : Type} {g : α → Except ε β} {a : α} {rest : List α}
    {read : List β} : (a :: rest).mapM g = .ok read ↔
      ∃ b later, g a = .ok b ∧ rest.mapM g = .ok later ∧ read = b :: later := by
  rw [List.mapM_cons]
  rcases g a with e | b
  · exact iff_of_false nofun nofun
  · rcases rest.mapM g with e | later
    · exact iff_of_false nofun nofun
    · show Except.ok (b :: later) = .ok read ↔ _
      simp [eq_comm]

theorem mapM_block_eq_ok_iff {rows : List BlockRow} {blocks : List (Block f)} :
    rows.mapM (Read.block f) = .ok blocks ↔
      rows = blocks.map Block.toRow ∧ ∀ b ∈ blocks, b.prefixLen ≤ maxPrefixLen := by
  induction rows generalizing blocks with
  | nil =>
    show Except.ok [] = .ok blocks ↔ _
    cases blocks <;> simp
  | cons row rest ih =>
    simp only [mapM_cons_eq_ok_iff, block_eq_ok_iff, ih]
    cases blocks with
    | nil => simp
    | cons b later =>
      simp only [List.map_cons, List.cons.injEq, List.forall_mem_cons]
      constructor
      · rintro ⟨c, cs, ⟨first, fits⟩, ⟨others, small⟩, rfl, rfl⟩
        exact ⟨⟨first, others⟩, fits, small⟩
      · rintro ⟨⟨first, others⟩, fits, small⟩
        exact ⟨b, later, ⟨first, fits⟩, ⟨others, small⟩, rfl, rfl⟩

/-- A valid block fits a row. -/
theorem Block.Valid.prefixLen_le {b : Block f} (valid : b.Valid) : b.prefixLen ≤ maxPrefixLen := by
  have width : f.bits ≤ 128 := by cases f <;> decide
  have fits := valid.fits
  unfold maxPrefixLen
  omega

/-- Rows that store valid blocks are read in the order of the blocks. -/
theorem mapM_mergeSort_toRow {blocks : List (Block f)} (valid : ∀ b ∈ blocks, b.Valid) :
    ((blocks.map Block.toRow).mergeSort fun b c => b.base.le c.base).mapM (Read.block f) =
      .ok (blocks.mergeSort fun b c => b.base ≤ c.base) := by
  have sorted := List.map_mergeSort (f := Block.toRow) (l := blocks)
    (r := fun b c => b.base ≤ c.base) (s := fun b c => b.base.le c.base)
    fun b _ c _ => (toCell_le b.base c.base).symm
  exact mapM_block_eq_ok_iff.mpr
    ⟨sorted.symm, fun b member => (valid b (List.mem_mergeSort.mp member)).prefixLen_le⟩

/-! ## The order of ranges -/

theorem Range.le_iff {r s : Range f} :
    r.le s = true ↔ r.first < s.first ∨ r.first = s.first ∧ r.last ≤ s.last := by
  simp [Range.le]

theorem Range.le_trans (r s u : Range f) (first : r.le s = true) (second : s.le u = true) :
    r.le u = true := by
  simp only [Range.le_iff, Addr.ext_iff_toNat, Addr.lt_def, Addr.le_def] at *
  omega

theorem Range.le_total (r s : Range f) : (r.le s || s.le r) = true := by
  simp only [Bool.or_eq_true, Range.le_iff, Addr.ext_iff_toNat, Addr.lt_def, Addr.le_def]
  omega

/-- Sorted ranges ascend by their first addresses. -/
theorem Range.mergeSort_ascending (ranges : List (Range f)) :
    (ranges.mergeSort Range.le).Pairwise fun r s => r.first ≤ s.first := by
  have sorted : (ranges.mergeSort Range.le).Pairwise fun r s => r.le s = true :=
    List.pairwise_mergeSort Range.le_trans Range.le_total ranges
  refine sorted.imp fun {r s} ordered => ?_
  rcases Range.le_iff.mp ordered with less | ⟨same, -⟩
  · exact Nat.le_of_lt less
  · exact Nat.le_of_eq (congrArg _ same)

end NetRegistry
