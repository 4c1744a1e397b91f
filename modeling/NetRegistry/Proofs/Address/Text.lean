/-
# Proofs.Address.Text -- printed blocks read back

What ends a numeral is the first character that is no digit of its base, so each
reader is given a rest that stops it.  A sequence of groups ends before a slash
or before `::`, which is also where a gap is written.

* `Grammar.readQuad_dottedQuad`, `Grammar.readColonHex_colonHex`: the two forms
  of an address, whatever the text goes on with.
* `Grammar.readQuad_eq_none`: hex digits and a colon are not the start of a dotted
  quad, so an IPv6 text is not taken for an IPv4 one.
* `Block.parse?_text`: the text of a block of a network reads back as the block,
  and `Block.parse?_text_other`: only in its own family.
* `Block.valid_of_parse?`: whatever else is read as a block is one of a network.

**Main theorem** `Block.text_round_trips`.
-/
import NetRegistry.Address.Net
import NetRegistry.Proofs.Store.Cell

namespace NetRegistry

set_option autoImplicit false

open Text

/-! ## Numerals -/

namespace Text

/-- No digit of the base comes first. -/
def Stops (base : Nat) (rest : List Char) : Prop := ∀ c ∈ rest.head?, isDigit base c = false

/-- A digit stays one in a larger base. -/
theorem isDigit_mono {base base' : Nat} (le : base ≤ base') {c : Char}
    (digit : isDigit base c = true) : isDigit base' c = true := by
  simp only [isDigit, digitValue?, Option.isSome_filter, Option.any_eq_true,
    decide_eq_true_eq] at digit ⊢
  obtain ⟨v, value, small⟩ := digit
  exact ⟨v, value, Nat.lt_of_lt_of_le small le⟩

theorem Stops.mono {base base' : Nat} (le : base ≤ base') {rest : List Char}
    (stops : Stops base' rest) : Stops base rest := fun c first =>
  Bool.eq_false_iff.mpr fun digit => by
    simpa [stops c first] using isDigit_mono le digit

theorem stops_nil (base : Nat) : Stops base [] := fun _ h => by cases h

theorem stops_cons {base : Nat} {c : Char} {rest : List Char} (h : isDigit base c = false) :
    Stops base (c :: rest) := fun d same => by
  obtain rfl : c = d := by simpa using same
  exact h

variable {base : Nat} (h2 : 2 ≤ base) (h36 : base ≤ 36)

include h2 in
/-- A number below a power of the base has no more digits than the power says. -/
theorem length_numeral_le (k : Nat) {n : Nat} (small : n < Nat.pow base (k + 1)) :
    (numeral base n).length ≤ k + 1 := by
  induction k generalizing n with
  | zero =>
    have below : n < base := by simpa using small
    rw [numeral, if_pos (Or.inl below)]
    exact Nat.le_refl 1
  | succ k ih =>
    rw [numeral]
    split
    · simp
    · have fewer := ih (n := n / base)
        ((Nat.div_lt_iff_lt_mul (by omega)).mpr (Nat.pow_succ base (k + 1) ▸ small))
      rw [List.length_append, List.length_singleton]
      omega

include h2 h36 in
theorem readNumeral_numeral {n maxDigits : Nat} {rest : List Char}
    (fits : (numeral base n).length ≤ maxDigits) (stops : Stops base rest) :
    readNumeral base maxDigits (numeral base n ++ rest) = some (numeral base n, rest) := by
  have digits := isDigit_of_mem_numeral h2 h36 n
  have noneTaken : rest.takeWhile (isDigit base) = [] := by
    cases rest with
    | nil => rfl
    | cons c rest => simp [stops c rfl]
  have noneDropped : rest.dropWhile (isDigit base) = rest := by
    cases rest with
    | nil => rfl
    | cons c rest => simp [stops c rfl]
  have taken : (numeral base n ++ rest).takeWhile (isDigit base) = numeral base n := by
    rw [List.takeWhile_append_of_pos digits, noneTaken, List.append_nil]
  have dropped : (numeral base n ++ rest).dropWhile (isDigit base) = rest := by
    rw [List.dropWhile_append_of_pos digits, noneDropped]
  simp [readNumeral, taken, dropped, numeral_ne_nil, fits]

theorem readNumeral_of_stops {maxDigits : Nat} {cs : List Char} (stops : Stops base cs) :
    readNumeral base maxDigits cs = none := by
  cases cs with
  | nil => rfl
  | cons c cs => simp [readNumeral, stops c rfl]

end Text

theorem joinChars_cons (sep x : List Char) (xs : List (List Char)) :
    joinChars sep (x :: xs) = x ++ (xs.map (sep ++ ·)).flatten := by
  induction xs generalizing x with
  | nil => simp [joinChars]
  | cons y ys ih => simp [joinChars, ih y]

theorem mem_joinChars {sep : List Char} {xs : List (List Char)} {c : Char}
    (member : c ∈ joinChars sep xs) : c ∈ sep ∨ ∃ x ∈ xs, c ∈ x := by
  cases xs with
  | nil => cases member
  | cons x xs =>
    rw [joinChars_cons, List.mem_append, List.mem_flatten] at member
    rcases member with inside | ⟨part, listed, inside⟩
    · exact .inr ⟨x, by simp, inside⟩
    · obtain ⟨y, there, rfl⟩ := List.mem_map.mp listed
      rcases List.mem_append.mp inside with between | inside
      · exact .inl between
      · exact .inr ⟨y, by simp [there], inside⟩

/-! ## Dotted quads -/

namespace Grammar

variable {rest : List Char}

theorem readOctet_numeral {n : Nat} (small : n < 256) (stops : Stops 10 rest) :
    network.readOctet (numeral 10 n ++ rest) = some (n, rest) := by
  have fits : (numeral 10 n).length ≤ 3 :=
    length_numeral_le (by decide) 2 (Nat.lt_trans small (by decide))
  have value := @numeralValue_numeral 10 (by decide) (by decide) n
  simp [readOctet, readNumeral_numeral (by decide) (by decide) fits stops, value, network,
    Nat.not_le.mpr small]

/-- Octets behind a dot each. -/
def dotted (ns : List Nat) : List Char := (ns.map fun n => '.' :: numeral 10 n).flatten

theorem stops_dotted (ns : List Nat) (stops : Stops 10 rest) : Stops 10 (dotted ns ++ rest) := by
  cases ns with
  | nil => exact stops
  | cons n ns => exact stops_cons (by decide)

theorem readOctets_dotted {ns : List Nat} (small : ∀ n ∈ ns, n < 256) (stops : Stops 10 rest) :
    network.readOctets ns.length false (dotted ns ++ rest) = some (ns, rest) := by
  induction ns with
  | nil => rfl
  | cons n ns ih =>
    have text : dotted (n :: ns) ++ rest = '.' :: (numeral 10 n ++ (dotted ns ++ rest)) := by
      simp [dotted]
    have first := readOctet_numeral (small n (by simp)) (stops_dotted ns stops)
    have later := ih fun m member => small m (by simp [member])
    rw [text]
    simp [readOctets, readChar, first, later]

theorem readOctets_first {g : Grammar} {k n : Nat} {ns : List Nat} {cs cs' : List Char}
    (first : g.readOctet cs = some (n, cs')) (later : g.readOctets k false cs' = some (ns, rest)) :
    g.readOctets (k + 1) true cs = some (n :: ns, rest) := by
  simp [readOctets, first, later]

theorem readQuad_dottedQuad {n : Nat} (small : n < powTwo 32) (stops : Stops 10 rest) :
    network.readQuad (dottedQuad n ++ rest) = some (n, rest) := by
  obtain ⟨a, b, c, d, octets⟩ : ∃ a b c d, splitBits 8 4 n = [a, b, c, d] := ⟨_, _, _, _, rfl⟩
  have below : ∀ m ∈ [a, b, c, d], m < powTwo 8 := fun m member =>
    lt_of_mem_splitBits (octets ▸ member)
  have text : dottedQuad n ++ rest = numeral 10 a ++ (dotted [b, c, d] ++ rest) := by
    simp [dottedQuad, octets, joinChars_cons, dotted]
  have first := readOctet_numeral (below a (by simp)) (stops_dotted [b, c, d] stops)
  have later : network.readOctets 3 false (dotted [b, c, d] ++ rest) = some ([b, c, d], rest) :=
    readOctets_dotted (fun m member => below m (List.mem_cons_of_mem a member)) stops
  have value : joinBits 8 [a, b, c, d] = n := by
    rw [← octets, joinBits_splitBits]
    exact Nat.mod_eq_of_lt small
  simp [readQuad, text, readOctets_first first later, value]

/-- An octet takes all the decimal digits that there are. -/
theorem rest_of_readOctet {g : Grammar} {cs cs' : List Char} {n : Nat}
    (read : g.readOctet cs = some (n, cs')) : cs' = cs.dropWhile (isDigit 10) := by
  obtain ⟨⟨digits, left⟩, taken, rest⟩ := Option.bind_eq_some_iff.mp read
  have all : left = cs.dropWhile (isDigit 10) := by
    simp only [readNumeral] at taken
    split at taken <;> cases taken
    rfl
  simp only [Option.ite_none_left_eq_some, Option.some.injEq, Prod.mk.injEq] at rest
  obtain ⟨_, _, _, rfl⟩ := rest
  exact all

/-- Hex digits and then neither a digit nor a dot are not the start of a dotted quad. -/
theorem readQuad_eq_none {g : Grammar} {ds : List Char} (digits : ∀ d ∈ ds, isDigit 16 d = true)
    {c : Char} (apart : c ≠ '.') (stops : isDigit 10 c = false) :
    g.readQuad (ds ++ c :: rest) = none := by
  have noDot : ∀ d ∈ ds, d ≠ '.' := by
    rintro d member rfl
    exact absurd (digits '.' member) (by decide)
  have after : readChar '.' ((ds ++ c :: rest).dropWhile (isDigit 10)) = none := by
    clear digits
    induction ds with
    | nil => simp [stops, readChar, apart]
    | cons d ds ih =>
      by_cases digit : isDigit 10 d = true
      · simpa [digit] using ih fun e member => noDot e (by simp [member])
      · simp [digit, readChar, noDot d (by simp)]
  cases first : g.readOctet (ds ++ c :: rest) with
  | none => simp [readQuad, readOctets, first]
  | some octet =>
    rw [← rest_of_readOctet first] at after
    simp [readQuad, readOctets, first, after]

/-! ## Groups -/

/-- Groups behind a colon each. -/
def colons (gs : List Nat) : List Char := (gs.map fun g => ':' :: numeral 16 g).flatten

theorem hexGroups_cons (n : Nat) (gs : List Nat) :
    hexGroups (n :: gs) = numeral 16 n ++ colons gs := by
  simp [hexGroups, joinChars_cons, colons, List.map_map, Function.comp_def]

/-- What may follow the last group: the prefix length, or a gap. -/
def Closes (rest : List Char) : Prop := (∃ r, rest = '/' :: r) ∨ ∃ r, rest = ':' :: ':' :: r

theorem Closes.stops (closes : Closes rest) : Stops 16 rest := by
  rcases closes with ⟨r, rfl⟩ | ⟨r, rfl⟩ <;> exact stops_cons (by decide)

theorem stops_colons (gs : List Nat) (closes : Closes rest) : Stops 16 (colons gs ++ rest) := by
  cases gs with
  | nil => exact closes.stops
  | cons g gs => exact stops_cons (by decide)

theorem readGroup_numeral {g : Nat} (small : g < powTwo 16) (stops : Stops 16 rest) :
    readGroup (numeral 16 g ++ rest) = some (g, rest) := by
  have fits : (numeral 16 g).length ≤ 4 := length_numeral_le (by decide) 3 small
  have value := @numeralValue_numeral 16 (by decide) (by decide) g
  simp [readGroup, readNumeral_numeral (by decide) (by decide) fits stops, value]

theorem readQuad_group (g : Grammar) (n : Nat) (gs : List Nat) (closes : Closes rest) :
    g.readQuad (numeral 16 n ++ (colons gs ++ rest)) = none := by
  have digits : ∀ d ∈ numeral 16 n, isDigit 16 d = true :=
    isDigit_of_mem_numeral (by decide) (by decide) n
  cases gs with
  | nil =>
    rcases closes with ⟨r, rfl⟩ | ⟨r, rfl⟩ <;> exact readQuad_eq_none digits (by decide) (by decide)
  | cons m gs => exact readQuad_eq_none digits (by decide) (by decide)

theorem readQuad_of_stops {g : Grammar} {cs : List Char} (stops : Stops 16 cs) :
    g.readQuad cs = none := by
  have none : readNumeral 10 3 cs = none := readNumeral_of_stops (stops.mono (by decide))
  simp [readQuad, readOctets, readOctet, none]

/-- Where no digit comes first, no group is read. -/
theorem readGroups_of_stops (g : Grammar) (room : Nat) {cs : List Char} (stops : Stops 16 cs) :
    g.readGroups room true cs = ([], false, cs) := by
  cases room with
  | zero => rfl
  | succ k =>
    simp [readGroups, readQuad_of_stops stops, readGroup, readNumeral_of_stops stops]

/-- Groups end before what closes them. -/
theorem readGroups_of_closes (g : Grammar) (room : Nat) (closes : Closes rest) :
    g.readGroups room false rest = ([], false, rest) := by
  cases room with
  | zero => rfl
  | succ k =>
    rcases closes with ⟨r, rfl⟩ | ⟨r, rfl⟩
    · rfl
    · have stops : Stops 16 (':' :: r) := stops_cons (by decide)
      simp [readGroups, readChar, readQuad_of_stops stops, readGroup, readNumeral_of_stops stops]

/-- One group, behind a colon unless it is the first, and then more. -/
theorem readGroups_cons {g : Grammar} {k n : Nat} {gs : List Nat} {first quad : Bool}
    {cs cs' : List Char}
    (opens : (if first then some cs else readChar ':' cs) = some (numeral 16 n ++ cs'))
    (noQuad : g.readQuad (numeral 16 n ++ cs') = none) (small : n < powTwo 16)
    (stops : Stops 16 cs') (later : g.readGroups k false cs' = (gs, quad, rest)) :
    g.readGroups (k + 1) first cs = (n :: gs, quad, rest) := by
  simp [readGroups, opens, noQuad, readGroup_numeral small stops, later]

theorem readGroups_colons (g : Grammar) {room : Nat} {gs : List Nat}
    (small : ∀ n ∈ gs, n < powTwo 16) (enough : gs.length ≤ room) (closes : Closes rest) :
    g.readGroups room false (colons gs ++ rest) = (gs, false, rest) := by
  induction gs generalizing room with
  | nil => exact readGroups_of_closes g room closes
  | cons n gs ih =>
    obtain ⟨k, rfl⟩ := Nat.exists_eq_add_one_of_ne_zero (Nat.ne_zero_of_lt enough)
    have opens : readChar ':' (colons (n :: gs) ++ rest) =
        some (numeral 16 n ++ (colons gs ++ rest)) := by
      simp [colons, readChar]
    exact readGroups_cons opens (readQuad_group g n gs closes) (small n (by simp))
      (stops_colons gs closes)
      (ih (fun m member => small m (by simp [member])) (Nat.le_of_succ_le_succ enough))

theorem readGroups_hexGroups (g : Grammar) {room : Nat} {gs : List Nat}
    (small : ∀ n ∈ gs, n < powTwo 16) (enough : gs.length ≤ room) (closes : Closes rest) :
    g.readGroups room true (hexGroups gs ++ rest) = (gs, false, rest) := by
  cases gs with
  | nil => exact readGroups_of_stops g room closes.stops
  | cons n gs =>
    obtain ⟨k, rfl⟩ := Nat.exists_eq_add_one_of_ne_zero (Nat.ne_zero_of_lt enough)
    have later := readGroups_colons g (fun m member => small m (by simp [member]))
      (Nat.le_of_succ_le_succ enough) closes
    rw [hexGroups_cons, List.append_assoc]
    exact readGroups_cons rfl (readQuad_group g n gs closes) (small n (by simp))
      (stops_colons gs closes) later

end Grammar

/-! ## Runs of zeros -/

theorem leadingZeroRun_split (gs : List Nat) :
    gs = List.replicate (leadingZeroRun gs) 0 ++ gs.drop (leadingZeroRun gs) := by
  induction gs with
  | nil => rfl
  | cons g gs ih =>
    by_cases zero : g = 0
    · subst zero
      simpa [leadingZeroRun, List.replicate_succ] using ih
    · simp [leadingZeroRun, zero]

/-- The longest run of zeros is a run of zeros. -/
theorem longestZeroRun_split (gs : List Nat) :
    gs = gs.take (longestZeroRun gs).1 ++ List.replicate (longestZeroRun gs).2 0 ++
      gs.drop ((longestZeroRun gs).1 + (longestZeroRun gs).2) := by
  induction gs with
  | nil => rfl
  | cons g gs ih =>
    simp only [longestZeroRun]
    split
    · simpa using leadingZeroRun_split (g :: gs)
    · rw [Nat.add_right_comm]
      simpa using ih

/-! ## IPv6 addresses -/

namespace Grammar

variable {rest : List Char}

/-- A gap stands for as many zeros as are missing. -/
theorem readColonHex_gap {g : Grammar} {head tail : List Nat} {quad : Bool} {cs cs' : List Char}
    (before : g.readGroups 8 true cs = (head, false, ':' :: ':' :: cs')) (short : head.length ≠ 8)
    (after : g.readGroups (8 - head.length - g.shortestGap) true cs' = (tail, quad, rest)) :
    g.readColonHex cs =
      some (head ++ List.replicate (8 - head.length - tail.length) 0 ++ tail, rest) := by
  simp [readColonHex, before, short, readChar, after]

theorem readColonHex_compressed {gs : List Nat} (eight : gs.length = 8)
    (small : ∀ n ∈ gs, n < powTwo 16) (closes : ∃ r, rest = '/' :: r) :
    network.readColonHex (compressedGroups gs ++ rest) = some (gs, rest) := by
  have zeros := longestZeroRun_split gs
  simp only [compressedGroups]
  generalize (longestZeroRun gs).1 = pos, (longestZeroRun gs).2 = len at zeros
  split
  · rename_i gap
    have lengths := congrArg List.length zeros
    simp only [List.length_append, List.length_replicate, eight] at lengths
    have text : hexGroups (gs.take pos) ++ [':', ':'] ++ hexGroups (gs.drop (pos + len)) ++ rest =
        hexGroups (gs.take pos) ++ ':' :: ':' :: (hexGroups (gs.drop (pos + len)) ++ rest) := by
      simp
    have before : network.readGroups 8 true
        (hexGroups (gs.take pos) ++ ':' :: ':' :: (hexGroups (gs.drop (pos + len)) ++ rest)) =
          (gs.take pos, false, ':' :: ':' :: (hexGroups (gs.drop (pos + len)) ++ rest)) :=
      readGroups_hexGroups network (fun n member => small n (List.mem_of_mem_take member))
        (by omega) (.inr ⟨_, rfl⟩)
    have after : network.readGroups (8 - (gs.take pos).length - 0) true
        (hexGroups (gs.drop (pos + len)) ++ rest) = (gs.drop (pos + len), false, rest) :=
      readGroups_hexGroups network (fun n member => small n (List.mem_of_mem_drop member))
        (by omega) (.inl closes)
    have missing : 8 - (gs.take pos).length - (gs.drop (pos + len)).length = len := by omega
    rw [text, readColonHex_gap before (by omega) after, missing, ← zeros]
  · have whole := readGroups_hexGroups network small (Nat.le_of_eq eight) (.inl closes)
    simp [readColonHex, whole, eight]

/-- The dotted form of an address that maps an IPv4 address. -/
theorem readColonHex_mapped {q : Nat} (small : q < powTwo 32) (closes : ∃ r, rest = '/' :: r) :
    network.readColonHex (":".toList ++ ":ffff:".toList ++ dottedQuad q ++ rest) =
      some ([0, 0, 0, 0, 0, 0xFFFF, q / powTwo 16, q % powTwo 16], rest) := by
  obtain ⟨r, rfl⟩ := closes
  let quad := dottedQuad q ++ '/' :: r
  have written : numeral 16 0xFFFF = ['f', 'f', 'f', 'f'] := by
    simp [numeral, digitChar]
  have text : ":".toList ++ ":ffff:".toList ++ dottedQuad q ++ '/' :: r =
      ':' :: ':' :: (numeral 16 0xFFFF ++ ':' :: quad) := by
    rw [written]
    simp [quad]
  have read : network.readQuad quad = some (q, '/' :: r) :=
    readQuad_dottedQuad small (stops_cons (by decide))
  have dotted : network.readGroups 7 false (':' :: quad) =
      ([q / powTwo 16, q % powTwo 16], true, '/' :: r) := by
    simp [readGroups, readChar, read]
  have after : network.readGroups 8 true (numeral 16 0xFFFF ++ ':' :: quad) =
      ([0xFFFF, q / powTwo 16, q % powTwo 16], true, '/' :: r) :=
    readGroups_cons rfl
      (readQuad_eq_none (isDigit_of_mem_numeral (by decide) (by decide) _) (by decide) (by decide))
      (by decide) (stops_cons (by decide)) dotted
  have before : network.readGroups 8 true (':' :: ':' :: (numeral 16 0xFFFF ++ ':' :: quad)) =
      ([], false, _) := readGroups_of_stops network 8 (stops_cons (by decide))
  rw [text, readColonHex_gap before (by decide) after]
  rfl

theorem readColonHex_colonHex {n : Nat} (small : n < powTwo 128) (closes : ∃ r, rest = '/' :: r) :
    ∃ groups, network.readColonHex (colonHex n ++ rest) = some (groups, rest) ∧
      joinBits 16 groups = n := by
  unfold colonHex
  split
  · rename_i mapped
    refine ⟨_, readColonHex_mapped (Nat.mod_lt n (powTwo_pos 32)) closes, ?_⟩
    have whole := Nat.div_add_mod n (powTwo 32)
    rw [mapped] at whole
    generalize n % powTwo 32 = q at whole ⊢
    simp only [joinBits, List.foldl_cons, List.foldl_nil, Nat.zero_mul, Nat.zero_add]
    calc (0xFFFF * powTwo 16 + q / powTwo 16) * powTwo 16 + q % powTwo 16
        = powTwo 16 * powTwo 16 * 0xFFFF + (powTwo 16 * (q / powTwo 16) + q % powTwo 16) := by
          rw [Nat.add_mul, Nat.mul_right_comm, Nat.mul_comm (0xFFFF * _), Nat.mul_comm (q / _),
            Nat.add_assoc, Nat.mul_comm 0xFFFF, Nat.mul_assoc]
      _ = n := by rw [Nat.div_add_mod, ← powTwo_add, whole]
  · refine ⟨splitBits 16 8 n, readColonHex_compressed (length_splitBits 16 8 n)
      (fun d member => lt_of_mem_splitBits member) closes, ?_⟩
    rw [joinBits_splitBits]
    exact Nat.mod_eq_of_lt small

/-- An IPv6 address is not the start of a dotted quad. -/
theorem readQuad_hexGroups (g : Grammar) (gs : List Nat) (closes : Closes rest) :
    g.readQuad (hexGroups gs ++ rest) = none := by
  cases gs with
  | nil => exact readQuad_of_stops closes.stops
  | cons n gs =>
    rw [hexGroups_cons, List.append_assoc]
    exact readQuad_group g n gs closes

theorem readQuad_colonHex (g : Grammar) (n : Nat) (closes : ∃ r, rest = '/' :: r) :
    g.readQuad (colonHex n ++ rest) = none := by
  unfold colonHex
  split
  · exact readQuad_of_stops (stops_cons (by decide))
  · simp only [compressedGroups]
    split
    · rw [List.append_assoc, List.append_assoc]
      exact readQuad_hexGroups g _ (.inr ⟨_, rfl⟩)
    · exact readQuad_hexGroups g _ (.inl closes)

theorem readAddr_chars {f : Family} (a : Addr f) (closes : ∃ r, rest = '/' :: r) :
    network.readAddr f (a.chars ++ rest) = some (a, rest) := by
  have whole : Addr.ofNat? f a.toNat = some a := dif_pos a.isLt
  cases f with
  | v4 =>
    have stops : Stops 10 rest := Stops.mono (by decide) (Closes.stops (.inl closes))
    simp [readAddr, Addr.chars, readQuad_dottedQuad a.isLt stops, whole]
  | v6 =>
    obtain ⟨groups, read, value⟩ := readColonHex_colonHex a.isLt closes
    simp [readAddr, Addr.chars, read, value, whole]

theorem readAddr_other (a : Addr .v6) (closes : ∃ r, rest = '/' :: r) :
    network.readAddr .v4 (a.chars ++ rest) = none := by
  simp [readAddr, Addr.chars, readQuad_colonHex network a.toNat closes]

end Grammar

/-! ## Blocks -/

variable {f g : Family}

theorem Net.read_chars {b : Block f} (fits : b.prefixLen ≤ f.bits) :
    Net.read f b.chars = some (⟨f, b⟩, []) := by
  have digits : (numeral 10 b.prefixLen).length ≤ prefixDigits f := by
    cases f with
    | v4 => exact length_numeral_le (by decide) 1 (Nat.lt_of_le_of_lt fits (by decide))
    | v6 => exact length_numeral_le (by decide) 2 (Nat.lt_of_le_of_lt fits (by decide))
  have number := readNumeral_numeral (by decide) (by decide) digits (stops_nil 10)
  rw [List.append_nil] at number
  have value := @numeralValue_numeral 10 (by decide) (by decide) b.prefixLen
  simp [Net.read, Block.chars, Grammar.readAddr_chars b.base ⟨_, rfl⟩, Grammar.readChar, number,
    value, Nat.not_lt.mpr fits]

/-- A printed block is read as itself: IPv4, tried first, does not take an IPv6 text. -/
theorem Net.parse?_chars {b : Block f} (fits : b.prefixLen ≤ f.bits) :
    Net.parse? b.chars = some ⟨f, b⟩ := by
  cases f with
  | v4 => simp [Net.parse?, Net.read_chars fits]
  | v6 =>
    have refused : Net.read .v4 b.chars = none := by
      simp [Net.read, Block.chars, Grammar.readAddr_other b.base ⟨_, rfl⟩]
    simp [Net.parse?, refused, Net.read_chars fits]

/-! ## Blanks -/

/-- A character that addresses and blocks are printed with. -/
def Printed (c : Char) : Prop := isDigit 16 c = true ∨ c = '.' ∨ c = ':' ∨ c = '/'

theorem Printed.bounds {c : Char} (printed : Printed c) : 0x20 < c.toNat ∧ c.toNat < 0x80 := by
  rcases printed with digit | rfl | rfl | rfl
  · simp only [isDigit, digitValue?, Option.isSome_filter, Option.any_eq_true] at digit
    obtain ⟨v, value, -⟩ := digit
    simp only [Bool.and_eq_true, decide_eq_true_eq] at value
    split at value
    · omega
    · split at value
      · omega
      · split at value
        · omega
        · cases value
  all_goals decide

theorem Printed.not_blank {c : Char} (printed : Printed c) : isBlank c = false := by
  obtain ⟨above, below⟩ := printed.bounds
  simp only [isBlank, Bool.or_eq_false_iff, Bool.and_eq_false_iff, decide_eq_false_iff_not,
    beq_eq_false_iff_ne]
  omega

theorem printed_numeral {base n : Nat} (h2 : 2 ≤ base) (h16 : base ≤ 16) {c : Char}
    (member : c ∈ numeral base n) : Printed c :=
  .inl (isDigit_mono h16 (isDigit_of_mem_numeral h2 (by omega) n c member))

theorem printed_dottedQuad {n : Nat} {c : Char} (member : c ∈ dottedQuad n) : Printed c := by
  rcases mem_joinChars member with between | ⟨x, listed, inside⟩
  · exact .inr (.inl (List.mem_singleton.mp between))
  · obtain ⟨octet, -, rfl⟩ := List.mem_map.mp listed
    exact printed_numeral (by decide) (by decide) inside

theorem printed_hexGroups {gs : List Nat} {c : Char} (member : c ∈ hexGroups gs) : Printed c := by
  rcases mem_joinChars member with between | ⟨x, listed, inside⟩
  · exact .inr (.inr (.inl (List.mem_singleton.mp between)))
  · obtain ⟨group, -, rfl⟩ := List.mem_map.mp listed
    exact printed_numeral (by decide) (by decide) inside

theorem printed_colonHex {n : Nat} {c : Char} (member : c ∈ colonHex n) : Printed c := by
  unfold colonHex at member
  split at member
  · rcases List.mem_append.mp member with start | quad
    · have each : c = ':' ∨ c = 'f' := by
        simp only [String.reduceToList, List.cons_append, List.nil_append, List.mem_cons,
          List.not_mem_nil, or_false] at start
        grind
      rcases each with rfl | rfl
      · exact .inr (.inr (.inl rfl))
      · exact .inl (by decide)
    · exact printed_dottedQuad quad
  · simp only [compressedGroups] at member
    split at member
    · rcases List.mem_append.mp member with before | after
      · rcases List.mem_append.mp before with before | gap
        · exact printed_hexGroups before
        · exact .inr (.inr (.inl (by simpa using gap)))
      · exact printed_hexGroups after
    · exact printed_hexGroups member

theorem printed_chars {b : Block f} {c : Char} (member : c ∈ b.chars) : Printed c := by
  rcases List.mem_append.mp member with base | rest
  · cases f with
    | v4 => exact printed_dottedQuad base
    | v6 => exact printed_colonHex base
  · rcases List.mem_cons.mp rest with rfl | number
    · exact .inr (.inr (.inr rfl))
    · exact printed_numeral (by decide) (by decide) number

theorem dropWhile_blanks {pre cs : List Char} (blank : ∀ c ∈ pre, isBlank c = true)
    (solid : ∀ c ∈ cs.head?, isBlank c = false) : (pre ++ cs).dropWhile isBlank = cs := by
  rw [List.dropWhile_append_of_pos blank]
  cases cs with
  | nil => rfl
  | cons c cs => simp [solid c rfl]

/-- Trimming takes the blanks around a text that has none of its own. -/
theorem trim_padded {pre cs post : List Char} (before : ∀ c ∈ pre, isBlank c = true)
    (after : ∀ c ∈ post, isBlank c = true) (solid : ∀ c ∈ cs, isBlank c = false)
    (nonempty : cs ≠ []) : trim (pre ++ cs ++ post) = cs := by
  have first : ∀ c ∈ (cs ++ post).head?, isBlank c = false := by
    cases cs with
    | nil => exact absurd rfl nonempty
    | cons d cs => exact fun c same => solid c (by simpa using Or.inl (Option.some.inj same).symm)
  have last : ∀ c ∈ cs.reverse.head?, isBlank c = false := fun c member =>
    solid c (List.mem_reverse.mp (List.mem_of_mem_head? member))
  rw [trim, List.append_assoc, dropWhile_blanks before first, List.reverse_append,
    dropWhile_blanks (fun c member => after c (List.mem_reverse.mp member)) last,
    List.reverse_reverse]

namespace Block

theorem chars_ne_nil (b : Block f) : b.chars ≠ [] := by simp [chars]

variable {b : Block f} {pre post : List Char}

/-- The text of a block, with any blanks around it, reads as the block. -/
theorem parse?_padded (fits : b.prefixLen ≤ f.bits) (before : ∀ c ∈ pre, isBlank c = true)
    (after : ∀ c ∈ post, isBlank c = true) :
    parse? g (String.ofList (pre ++ b.chars ++ post)) = (⟨f, b⟩ : Net).block? g := by
  have trimmed := trim_padded before after (fun c member => (printed_chars member).not_blank)
    b.chars_ne_nil
  rw [parse?, String.toList_ofList, trimmed, Net.parse?_chars fits]
  rfl

theorem parse?_alone (fits : b.prefixLen ≤ f.bits) :
    parse? g b.text = (⟨f, b⟩ : Net).block? g := by
  have none : ∀ c ∈ ([] : List Char), isBlank c = true := fun c member => by cases member
  have read := @parse?_padded f g b [] [] fits none none
  rwa [List.nil_append, List.append_nil] at read

theorem net_eq (valid : b.Valid) : (⟨f, b⟩ : Net).block? f = some b := by
  have cleared : b.network = b := Block.ext valid.aligned rfl
  cases f <;> exact congrArg some cleared

/-- A block of a network reads back from its text, -/
theorem parse?_text (valid : b.Valid) : parse? f b.text = some b := by
  rw [parse?_alone valid.fits, net_eq valid]

/-- and only as a block of its own family. -/
theorem parse?_text_other (valid : b.Valid) (other : g ≠ f) : parse? g b.text = none := by
  rw [parse?_alone valid.fits]
  cases f <;> cases g <;> first | rfl | exact absurd rfl other

end Block

/-! ## Any text of a block -/

/-- A network that is read has a prefix length that its family admits. -/
theorem Net.fits_of_read {cs rest : List Char} {n : Net} (read : Net.read f cs = some (n, rest)) :
    n.block.prefixLen ≤ n.family.bits := by
  simp only [Net.read, Option.bind_eq_bind, Option.bind_eq_some_iff] at read
  obtain ⟨_, -, _, -, _, -, checked⟩ := read
  obtain ⟨short, same⟩ := Option.ite_none_left_eq_some.mp checked
  simp only [Option.some.injEq, Prod.mk.injEq] at same
  obtain ⟨rfl, -⟩ := same
  exact Nat.not_lt.mp short

theorem Net.fits_of_parse? {cs : List Char} {n : Net} (parsed : Net.parse? cs = some n) :
    n.block.prefixLen ≤ n.family.bits := by
  rw [Net.parse?] at parsed
  split at parsed
  · rename_i read
    cases parsed
    rw [Option.orElse_eq_orElse, Option.orElse_eq_or] at read
    rcases Option.or_eq_some_iff.mp read with v4 | ⟨-, v6⟩
    · exact Net.fits_of_read v4
    · exact Net.fits_of_read v6
  · cases parsed

theorem Addr.network_network (a : Addr f) (p : Nat) : (a.network p).network p = a.network p := by
  apply Addr.ext
  simp only [network]
  rw [Nat.mul_div_cancel _ (powTwo_pos _)]

namespace Block

/-- Clearing the host bits of a block leaves a network. -/
theorem network_valid {b : Block f} (fits : b.prefixLen ≤ f.bits) : b.network.Valid :=
  ⟨fits, b.base.network_network b.prefixLen⟩

/-- Whatever text is read, the block is a network. -/
theorem valid_of_parse? {s : String} {b : Block f} (parsed : parse? f s = some b) : b.Valid := by
  obtain ⟨n, read, block⟩ := Option.bind_eq_some_iff.mp parsed
  have fits := Net.fits_of_parse? read
  obtain ⟨g, c⟩ := n
  cases f <;> cases g <;> cases block <;> exact network_valid fits

/-- **Texts of blocks.**  The text of a block that the checked constructor accepts, whatever blanks
stand around it, is read as that block by its family and refused by the other.  Of the many texts
that a family reads, each gives a block that the constructor accepts and whose own text reads as it
again. -/
theorem text_round_trips (f : Family) :
    (∀ (base : Addr f) (p : Nat) (b : Block f), of? base p = .ok b → ∀ pre post : String,
      (∀ c ∈ pre.toList, isBlank c = true) → (∀ c ∈ post.toList, isBlank c = true) →
        parse? f (pre ++ b.text ++ post) = some b ∧
          ∀ g, g ≠ f → parse? g (pre ++ b.text ++ post) = none) ∧
    ∀ (s : String) (b : Block f), parse? f s = some b →
      of? b.base b.prefixLen = .ok b ∧ parse? f b.text = some b := by
  constructor
  · intro base p b accepted pre post before after
    obtain ⟨-, valid⟩ := of?_eq_ok_iff.mp accepted
    have padded : pre ++ b.text ++ post = String.ofList (pre.toList ++ b.chars ++ post.toList) := by
      simp [text, String.append_assoc]
    have read : ∀ g, parse? g (pre ++ b.text ++ post) = (⟨f, b⟩ : Net).block? g := by
      intro g
      rw [padded]
      exact parse?_padded valid.fits before after
    constructor
    · rw [read, net_eq valid]
    · intro g other
      rw [read]
      cases f <;> cases g <;> first | rfl | exact absurd rfl other
  · intro s b parsed
    have valid := valid_of_parse? parsed
    exact ⟨of?_eq_ok_iff.mpr ⟨rfl, valid⟩, parse?_text valid⟩

/-- A block of mapped addresses between blanks, and a text with host bits whose gap stands for no
group at all. -/
theorem text_round_trips_mapped :
    (of? (⟨0xFFFF01020300, by decide⟩ : Addr .v6) 120 = .ok ⟨⟨0xFFFF01020300, by decide⟩, 120⟩ ∧
      parse? .v6 (" \u3000" ++ (⟨⟨0xFFFF01020300, by decide⟩, 120⟩ : Block .v6).text ++ "\n") =
        some ⟨⟨0xFFFF01020300, by decide⟩, 120⟩ ∧
      parse? .v4 (" \u3000" ++ (⟨⟨0xFFFF01020300, by decide⟩, 120⟩ : Block .v6).text ++ "\n") =
        none) ∧
    ∃ b : Block .v6, parse? .v6 "1:2:3:4:5:6::7.8.9.10/112" = some b ∧
      of? b.base b.prefixLen = .ok b ∧ parse? .v6 b.text = some b := by
  have accepted : of? (⟨0xFFFF01020300, by decide⟩ : Addr .v6) 120 =
      .ok ⟨⟨0xFFFF01020300, by decide⟩, 120⟩ :=
    of?_eq_ok_iff.mpr ⟨rfl, by decide, by decide +kernel⟩
  have blanks := (text_round_trips .v6).1 _ _ _ accepted " \u3000" "\n" (by simp [isBlank])
    (by simp [isBlank])
  obtain ⟨b, parsed⟩ : ∃ b : Block .v6, parse? .v6 "1:2:3:4:5:6::7.8.9.10/112" = some b :=
    Option.isSome_iff_exists.mp (by decide +kernel)
  exact ⟨⟨accepted, blanks.1, blanks.2 .v4 (by decide)⟩, b, parsed, (text_round_trips .v6).2 _ b parsed⟩

end Block

end NetRegistry
